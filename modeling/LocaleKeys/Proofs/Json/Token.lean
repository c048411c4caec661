import LocaleKeys.Json.Printer
import LocaleKeys.Json.Token

/-!
# The tokens of printed JSON

A part of a JSON text stands for tokens of its own (`Separates`, `Lexes`). One that begins with a
delimiter and leaves nothing open may follow any other, while a word at the end of a part is only
known to be over when a delimiter follows. Punctuation, white space, strings as they are printed and
words are such parts, and larger parts are put together from them (`Lexes.append`).
-/

namespace LocaleKeys.Json.Token

open Text (isHighSurrogate isLowSurrogate)

variable {text text' : List Char} {tokens tokens' : List Token}

/-- The reading has come to the tokens (in reverse) if the text ends or a delimiter follows. -/
inductive Settles : Reading → List Token → Prop where
  | between (tokens : List Token) : Settles ⟨.between, tokens⟩ tokens
  | word {read : List Char} {token : Token} (tokens : List Token)
      (h : ofWord? read.reverse = some token) : Settles ⟨.word read, tokens⟩ (token :: tokens)

theorem Settles.finish {reading : Reading} (h : Settles reading tokens) :
    reading.finish? = some tokens.reverse := by
  cases h with
  | between => rfl
  | word tokens h => simp only [Reading.finish?, h, Option.map_some]

theorem Settles.next {reading : Reading} (h : Settles reading tokens) {c : Char}
    (delimiter : isDelimiter c = true) :
    reading.next? c = Reading.next? ⟨.between, tokens⟩ c := by
  cases h with
  | between => rfl
  | word tokens h => simp only [Reading.next?, if_pos delimiter, h, Option.map_some]

/-- The text stands for the tokens if a delimiter follows it. -/
def Lexes (text : List Char) (tokens : List Token) : Prop :=
  ∀ before, ∃ reading, text.foldlM Reading.next? ⟨.between, before⟩ = some reading ∧
    Settles reading (tokens.reverse ++ before)

/-- The text stands for the tokens wherever it is; it ends a word in front of it. -/
structure Separates (text : List Char) (tokens : List Token) : Prop where
  starts : ∃ c rest, text = c :: rest ∧ isDelimiter c = true
  reads : ∀ before, text.foldlM Reading.next? ⟨.between, before⟩
    = some ⟨.between, tokens.reverse ++ before⟩

theorem Separates.lexes (h : Separates text tokens) : Lexes text tokens :=
  fun before => ⟨_, h.reads before, .between _⟩

theorem Separates.append (h : Separates text tokens) (h' : Separates text' tokens') :
    Separates (text ++ text') (tokens ++ tokens') := by
  obtain ⟨c, rest, rfl, delimiter⟩ := h.starts
  refine ⟨⟨c, rest ++ text', rfl, delimiter⟩, fun before => ?_⟩
  rw [List.foldlM_append, h.reads, Option.bind_eq_bind, Option.bind_some, h'.reads,
    List.reverse_append, List.append_assoc]

theorem Separates.append_lexes (h : Separates text tokens) (h' : Lexes text' tokens') :
    Lexes (text ++ text') (tokens ++ tokens') := by
  intro before
  obtain ⟨reading, run, settles⟩ := h' (tokens.reverse ++ before)
  refine ⟨reading, ?_, ?_⟩
  · rw [List.foldlM_append, h.reads, Option.bind_eq_bind, Option.bind_some, run]
  · rw [List.reverse_append, List.append_assoc]
    exact settles

/-- A delimiter ends the word in front of it. -/
theorem Lexes.run_append (h : Lexes text tokens) (h' : Separates text' tokens')
    (before : List Token) :
    (text ++ text').foldlM Reading.next? ⟨.between, before⟩
      = some ⟨.between, (tokens ++ tokens').reverse ++ before⟩ := by
  obtain ⟨reading, run, settles⟩ := h before
  obtain ⟨c, rest, rfl, delimiter⟩ := h'.starts
  have go := h'.reads (tokens.reverse ++ before)
  rw [List.foldlM_cons] at go
  rw [List.foldlM_append, run, Option.bind_eq_bind, Option.bind_some, List.foldlM_cons,
    settles.next delimiter, go, List.reverse_append, List.append_assoc]

theorem Lexes.append (h : Lexes text tokens) (h' : Separates text' tokens') :
    Lexes (text ++ text') (tokens ++ tokens') :=
  fun before => ⟨_, h.run_append h' before, .between _⟩

/-- What lies between separating parts. -/
theorem Separates.around {middle : List Char} {inner : List Token} (h : Separates text tokens)
    (inside : Lexes middle inner) (h' : Separates text' tokens') :
    Separates (text ++ middle ++ text') (tokens ++ inner ++ tokens') := by
  obtain ⟨c, rest, rfl, delimiter⟩ := h.starts
  refine ⟨⟨c, rest ++ middle ++ text', by simp, delimiter⟩, fun before => ?_⟩
  exact (h.append_lexes inside).run_append h' before

/-- The tokens of a text are those that it stands for. -/
theorem Lexes.cut?_eq (h : Lexes text tokens) : cut? text = some tokens := by
  obtain ⟨reading, run, settles⟩ := h []
  rw [cut?, run, Option.bind_some, settles.finish, List.append_nil, List.reverse_reverse]

/-! ## Punctuation and white space -/

theorem separates_punctuation {c : Char} {token : Token} (h : punctuation? c = some token) :
    Separates [c] [token] := by
  have notSpace : isSpace c = false := by
    apply Bool.eq_false_iff.mpr
    intro space
    simp only [isSpace, Bool.or_eq_true, beq_iff_eq] at space
    rcases space with ((rfl | rfl) | rfl) | rfl <;> cases h
  refine ⟨⟨c, [], rfl, by simp [isDelimiter, h]⟩, fun before => ?_⟩
  simp [Reading.next?, Reading.begin, notSpace, h]

theorem separates_space {c : Char} (h : isSpace c = true) : Separates [c] [] := by
  refine ⟨⟨c, [], rfl, by simp [isDelimiter, h]⟩, fun before => ?_⟩
  simp [Reading.next?, Reading.begin, h]

theorem separates_spaces {c : Char} (h : isSpace c = true) (more : ∀ c ∈ text, isSpace c = true) :
    Separates (c :: text) [] := by
  induction text generalizing c with
  | nil => exact separates_space h
  | cons d text ih =>
    rw [List.forall_mem_cons] at more
    exact (separates_space h).append (ih more.1 more.2)

theorem separates_newLine (depth : Nat) : Separates (newLine depth) [] := by
  apply separates_spaces (by decide)
  intro c inside
  rw [List.eq_of_mem_replicate inside]
  rfl

/-! ## Strings -/

theorem hexDigit?_hexDigit (n : Nat) : Text.hexDigit? (hexDigit n) = some (n % 16) :=
  Text.hexDigit?_digitChar (Nat.mod_lt n (by decide))

/-- The digits of an escape are read as its code unit. -/
theorem run_unitEscape {unit : Nat} (h : unit < 0x10000) (units : List Nat)
    (before : List Token) :
    (unitEscape unit).foldlM Reading.next? ⟨.string units, before⟩
      = some ⟨.string (unit :: units), before⟩ := by
  have value : (((unit / 4096 % 16 * 16) + unit / 256 % 16) * 16 + unit / 16 % 16) * 16
      + unit % 16 = unit := by
    omega
  simp [unitEscape, Reading.next?, hexDigit?_hexDigit, value]

/-- A code point as it is printed is read as the code point. -/
theorem run_printUnit {unit : Nat} (h : unit < 0x110000) (units : List Nat)
    (before : List Token) :
    (printUnit unit).foldlM Reading.next? ⟨.string units, before⟩
      = some ⟨.string (unit :: units), before⟩ := by
  by_cases letter : unit ∈ [0x22, 0x5C, 0x08, 0x0C, 0x0A, 0x0D, 0x09]
  · simp only [List.mem_cons, List.not_mem_nil, or_false] at letter
    rcases letter with rfl | rfl | rfl | rfl | rfl | rfl | rfl <;> rfl
  · simp only [List.mem_cons, List.not_mem_nil, or_false, not_or] at letter
    simp only [printUnit, letter, if_false]
    split
    · next escaped =>
      apply run_unitEscape
      simp only [isHighSurrogate, isLowSurrogate, Bool.and_eq_true, decide_eq_true_eq] at escaped
      omega
    · next plain =>
      simp only [isHighSurrogate, isLowSurrogate, Bool.and_eq_true, decide_eq_true_eq,
        not_or] at plain
      have scalar : unit.isValidChar := by
        unfold Nat.isValidChar
        omega
      have value : (Char.ofNat unit).toNat = unit := by
        rw [Char.ofNat, dif_pos scalar]
        rfl
      have quote : Char.ofNat unit ≠ '"' := by
        intro same
        exact letter.1 (value ▸ congrArg Char.toNat same)
      have backslash : Char.ofNat unit ≠ '\\' := by
        intro same
        exact letter.2.1 (value ▸ congrArg Char.toNat same)
      simp [Reading.next?, quote, backslash, value, plain.1]

theorem run_printUnits {more : List Nat} (h : ∀ unit ∈ more, unit < 0x110000) (units : List Nat)
    (before : List Token) :
    (more.flatMap printUnit).foldlM Reading.next? ⟨.string units, before⟩
      = some ⟨.string (more.reverse ++ units), before⟩ := by
  induction more generalizing units with
  | nil => rfl
  | cons unit more ih =>
    rw [List.forall_mem_cons] at h
    rw [List.flatMap_cons, List.foldlM_append, run_printUnit h.1, Option.bind_eq_bind,
      Option.bind_some, ih h.2, List.reverse_cons, List.append_assoc, List.singleton_append]

theorem separates_printString {units : List Nat} (h : ∀ unit ∈ units, unit < 0x110000) :
    Separates (printString units) [.string units] := by
  refine ⟨⟨'"', units.flatMap printUnit ++ ['"'], rfl, by decide⟩, fun before => ?_⟩
  have opened : Reading.next? ⟨.between, before⟩ '"' = some ⟨.string [], before⟩ := rfl
  have inside := run_printUnits h [] before
  rw [List.append_nil] at inside
  rw [printString, List.cons_append, List.foldlM_cons, opened, Option.bind_eq_bind,
    Option.bind_some, List.foldlM_append, inside, Option.bind_eq_bind, Option.bind_some]
  simp [Reading.next?]

/-! ## Words -/

theorem run_word {more : List Char} (h : more.any isDelimiter = false) (read : List Char)
    (before : List Token) :
    more.foldlM Reading.next? ⟨.word read, before⟩ = some ⟨.word (more.reverse ++ read), before⟩ := by
  induction more generalizing read with
  | nil => rfl
  | cons c more ih =>
    rw [List.any_cons, Bool.or_eq_false_iff] at h
    have next : Reading.next? ⟨.word read, before⟩ c = some ⟨.word (c :: read), before⟩ := by
      simp [Reading.next?, h.1]
    rw [List.foldlM_cons, next, Option.bind_eq_bind, Option.bind_some, ih h.2, List.reverse_cons,
      List.append_assoc, List.singleton_append]

/-- A word without delimiters stands for its token. -/
theorem lexes_word {word : List Char} {token : Token} (h : ofWord? word = some token)
    (nonempty : word ≠ []) (joined : word.any isDelimiter = false) : Lexes word [token] := by
  intro before
  refine ⟨⟨.word word.reverse, before⟩, ?_, .word before (by rwa [List.reverse_reverse])⟩
  obtain ⟨c, rest, rfl⟩ := List.exists_cons_of_ne_nil nonempty
  rw [List.any_cons, Bool.or_eq_false_iff] at joined
  have first : Reading.next? ⟨.between, before⟩ c = some ⟨.word [c], before⟩ := by
    have parts := joined.1
    simp only [isDelimiter, Bool.or_eq_false_iff, Option.isSome_eq_false_iff,
      Option.isNone_iff_eq_none, beq_eq_false_iff_ne] at parts
    simp [Reading.next?, Reading.begin, parts]
  rw [List.foldlM_cons, first, Option.bind_eq_bind, Option.bind_some, run_word joined.2,
    List.reverse_cons]

/-! ## Numbers -/

theorem not_isDelimiter_of_isDigit {c : Char} (h : c.isDigit = true) : isDelimiter c = false := by
  have other : ∀ d : Char, d.isDigit = false → c ≠ d := by
    rintro d plain rfl
    rw [plain] at h
    cases h
  simp [isDelimiter, isSpace, punctuation?, other ' ' rfl, other '\t' rfl, other '\n' rfl,
    other '\r' rfl, other '[' rfl, other ']' rfl, other '\x7b' rfl, other '\x7d' rfl,
    other ',' rfl, other ':' rfl, other '"' rfl]

/-- A part of a number in front of the rest. -/
def Reads (text rest : List Char) : Prop :=
  ∃ read, text = read ++ rest ∧ read.any isDelimiter = false

theorem Reads.refl (text : List Char) : Reads text text :=
  ⟨[], rfl, rfl⟩

theorem Reads.cons {c : Char} {text rest : List Char} (h : Reads text rest)
    (joined : isDelimiter c = false) : Reads (c :: text) rest := by
  obtain ⟨read, rfl, other⟩ := h
  exact ⟨c :: read, rfl, by rw [List.any_cons, joined, other]; rfl⟩

theorem Reads.trans {text middle rest : List Char} (h : Reads text middle)
    (h' : Reads middle rest) : Reads text rest := by
  obtain ⟨read, rfl, joined⟩ := h
  obtain ⟨read', rfl, joined'⟩ := h'
  exact ⟨read ++ read', by rw [List.append_assoc], by rw [List.any_append, joined, joined']; rfl⟩

theorem reads_of_afterDigits? {text rest : List Char} (h : afterDigits? text = some rest) :
    Reads text rest := by
  unfold afterDigits? at h
  split at h
  · cases h
    refine ⟨text.takeWhile Char.isDigit, List.takeWhile_append_dropWhile.symm, ?_⟩
    rw [List.any_eq_false]
    intro c inside
    rw [not_isDelimiter_of_isDigit (List.all_eq_true.mp List.all_takeWhile c inside)]
    exact Bool.false_ne_true
  · cases h

theorem reads_of_afterInteger? {text rest : List Char} (h : afterInteger? text = some rest) :
    Reads text rest := by
  unfold afterInteger? at h
  split at h
  · cases h
    exact (Reads.refl _).cons (by decide)
  · exact reads_of_afterDigits? h

theorem reads_of_afterFraction? {text rest : List Char} (h : afterFraction? text = some rest) :
    Reads text rest := by
  unfold afterFraction? at h
  split at h
  · exact (reads_of_afterDigits? h).cons (by decide)
  · cases h
    exact .refl _

theorem reads_of_afterExponent? {text rest : List Char} (h : afterExponent? text = some rest) :
    Reads text rest := by
  unfold afterExponent? at h
  split at h
  · cases h
    exact .refl []
  · next c more =>
    split at h
    · next letter =>
      have joined : isDelimiter c = false := by rcases letter with rfl | rfl <;> decide
      split at h
      · exact ((reads_of_afterDigits? h).cons (by decide)).cons joined
      · exact ((reads_of_afterDigits? h).cons (by decide)).cons joined
      · exact (reads_of_afterDigits? h).cons joined
    · cases h
      exact .refl _

theorem reads_dropSign (text : List Char) : Reads text (dropSign text) := by
  unfold dropSign
  split
  · exact (Reads.refl _).cons (by decide)
  · exact .refl _

/-- A number is a word without delimiters. -/
theorem lexes_number {word : List Char} (h : isNumber word = true) : Lexes word [.number word] := by
  have joined : Reads word [] := by
    simp only [isNumber, beq_iff_eq, Option.bind_eq_some_iff] at h
    obtain ⟨more, ⟨fraction, integer, point⟩, exponent⟩ := h
    exact (reads_dropSign word).trans <| (reads_of_afterInteger? integer).trans <|
      (reads_of_afterFraction? point).trans (reads_of_afterExponent? exponent)
  obtain ⟨read, same, joined⟩ := joined
  rw [List.append_nil] at same
  subst same
  have nonempty : word ≠ [] := by
    rintro rfl
    cases h
  have token : ofWord? word = some (.number word) := by
    have null : word ≠ "null".toList := by
      rintro rfl
      cases h
    have yes : word ≠ "true".toList := by
      rintro rfl
      cases h
    have no : word ≠ "false".toList := by
      rintro rfl
      cases h
    rw [ofWord?, if_neg null, if_neg yes, if_neg no, if_pos h]
  exact lexes_word token nonempty joined

end LocaleKeys.Json.Token
