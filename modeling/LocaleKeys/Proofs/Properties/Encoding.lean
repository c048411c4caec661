import LocaleKeys.Proofs.Attempts
import LocaleKeys.Proofs.Properties.Escaping
import LocaleKeys.Proofs.Text

/-!
# Resource files can hold everything

`encode` writes a text in visible ASCII characters: what has a meaning of its own in a resource file
gets a backslash in front, control characters have their letters, and all other characters are
written by their code units. `Spells` is what the writings of a character have in common; each of
them is passed over as a whole by every stage of the reader. So a file of encoded definitions, each
on a line of its own, is read back as it is (`parse_encoded`), whatever the texts are.
-/

namespace LocaleKeys.Properties

open LogicalLine (continues continues_cons continues_pair gather isIgnored)
open Text (hexDigit? isHighSurrogate isLowSurrogate ofSurrogates)

/-! ## Writing -/

/-- Hexadecimal digits have small letters or capital letters. -/
inductive DigitCase where
  | lower
  | upper
deriving DecidableEq

/-- The last hexadecimal digit of a number. -/
def DigitCase.digit (digits : DigitCase) (n : Nat) : Char :=
  match digits with
  | .lower => Nat.digitChar (n % 16)
  | .upper => (Nat.digitChar (n % 16)).toUpper

/-- The escape of a code unit. -/
def escapeUnit (digits : DigitCase) (unit : Nat) : List Char :=
  ['\\', 'u', digits.digit (unit / 4096), digits.digit (unit / 256), digits.digit (unit / 16),
    digits.digit unit]

/-- The code units of a character: its number, or a high and a low surrogate. -/
def codeUnits (c : Char) : List Nat :=
  if c.toNat < 0x10000 then [c.toNat]
  else [0xD800 + (c.toNat - 0x10000) / 0x400, 0xDC00 + (c.toNat - 0x10000) % 0x400]

/-- The writing of a character. -/
def encodeChar (digits : DigitCase) (c : Char) : List Char :=
  if c ∈ ['\\', ' ', '=', ':', '#', '!'] then ['\\', c]
  else if c = '\t' then ['\\', 't']
  else if c = '\n' then ['\\', 'n']
  else if c = '\r' then ['\\', 'r']
  else if c = '\x0c' then ['\\', 'f']
  else if 0x20 ≤ c.toNat ∧ c.toNat ≤ 0x7E then [c]
  else (codeUnits c).flatMap (escapeUnit digits)

/-- The writing of a text. -/
def encode (digits : DigitCase) (text : List Char) : List Char :=
  text.flatMap (encodeChar digits)

/-- The line that defines a value for a key. -/
def definitionLine (digits : DigitCase) : List Char × List Char → List Char
  | (key, value) => encode digits key ++ '=' :: encode digits value

/-! ## Writings of a character -/

/-- A character that stands for itself wherever it stands in a resource file. -/
def isInert (c : Char) : Bool :=
  !isSeparator c && !isBlank c && !(['\\', '#', '!', '\n', '\r'].contains c)

theorem isInert_iff {c : Char} : isInert c = true ↔
    isSeparator c = false ∧ isBlank c = false ∧ c ∉ ['\\', '#', '!', '\n', '\r'] := by
  simp only [isInert, Bool.and_eq_true, Bool.not_eq_true', and_assoc, List.contains_eq_mem,
    decide_eq_false_iff_not]

theorem ne_of_isInert {c : Char} (h : isInert c = true) : c ≠ '\\' := by
  rintro rfl
  cases h

/-- The character can be written like this. -/
inductive Spells (c : Char) : List Char → Prop where
  | plain (inert : isInert c = true) : Spells c [c]
  | letter {d : Char} (unit : d ≠ 'u') (unbroken : d ≠ '\n' ∧ d ≠ '\r') (same : ofLetter d = c) :
      Spells c ['\\', d]
  | unit {a b d e : Char} {n : Nat} (inert : ∀ x ∈ [a, b, d, e], isInert x = true)
      (digits : codeUnit? a b d e = some n) (high : isHighSurrogate n = false)
      (low : isLowSurrogate n = false) (same : Char.ofNat n = c) : Spells c ['\\', 'u', a, b, d, e]
  | surrogates {a b d e a' b' d' e' : Char} {n n' : Nat}
      (inert : ∀ x ∈ [a, b, d, e], isInert x = true)
      (inert' : ∀ x ∈ [a', b', d', e'], isInert x = true)
      (digits : codeUnit? a b d e = some n) (digits' : codeUnit? a' b' d' e' = some n')
      (high : isHighSurrogate n = true) (low : isLowSurrogate n' = true)
      (same : ofSurrogates n n' = c) :
      Spells c ['\\', 'u', a, b, d, e, '\\', 'u', a', b', d', e']

theorem DigitCase.hexDigit?_digit (digits : DigitCase) (n : Nat) :
    hexDigit? (digits.digit n) = some (n % 16) := by
  have small : n % 16 < 16 := Nat.mod_lt n (by decide)
  cases digits with
  | lower => exact Text.hexDigit?_digitChar small
  | upper =>
    have all : ∀ k < 16, hexDigit? (Nat.digitChar k).toUpper = some k := by decide
    exact all _ small

theorem DigitCase.digit_ne_plus (digits : DigitCase) (n : Nat) : digits.digit n ≠ '+' := by
  intro plus
  have value := digits.hexDigit?_digit n
  rw [plus] at value
  cases value

theorem isInert_of_hexDigit? {c : Char} {n : Nat} (h : hexDigit? c = some n) :
    isInert c = true := by
  rw [isInert_iff]
  refine ⟨?_, ?_, ?_⟩
  · apply Bool.eq_false_iff.mpr
    rw [Ne, isSeparator_iff]
    rintro (rfl | rfl) <;> cases h
  · apply Bool.eq_false_iff.mpr
    intro blank
    simp only [isBlank, Bool.or_eq_true, beq_iff_eq] at blank
    rcases blank with (rfl | rfl) | rfl <;> cases h
  · simp only [List.mem_cons, List.not_mem_nil, or_false]
    rintro (rfl | rfl | rfl | rfl | rfl) <;> cases h

/-- The digits of a code unit are read as the code unit. -/
theorem codeUnit?_digits (digits : DigitCase) {unit : Nat} (h : unit < 0x10000) :
    codeUnit? (digits.digit (unit / 4096)) (digits.digit (unit / 256)) (digits.digit (unit / 16))
      (digits.digit unit) = some unit := by
  simp only [codeUnit?, if_neg (digits.digit_ne_plus _), digits.hexDigit?_digit,
    Option.bind_eq_bind, Option.bind_some]
  apply congrArg some
  omega

theorem isInert_digits (digits : DigitCase) (unit : Nat) :
    ∀ x ∈ [digits.digit (unit / 4096), digits.digit (unit / 256), digits.digit (unit / 16),
      digits.digit unit], isInert x = true := by
  simp only [List.forall_mem_cons]
  refine ⟨?_, ?_, ?_, ?_, nofun⟩
  all_goals exact isInert_of_hexDigit? (digits.hexDigit?_digit _)

/-- The code units of a character spell it. -/
theorem spells_codeUnits (digits : DigitCase) (c : Char) :
    Spells c ((codeUnits c).flatMap (escapeUnit digits)) := by
  have valid : c.toNat < 0xD800 ∨ 0xDFFF < c.toNat ∧ c.toNat < 0x110000 := c.valid
  rw [codeUnits]
  split
  · next basic =>
    obtain ⟨high, low⟩ := Text.not_isSurrogate c
    exact .unit (isInert_digits digits _) (codeUnit?_digits digits basic) high low
      (Char.ofNat_toNat c)
  · next supplementary =>
    refine .surrogates (isInert_digits digits _) (isInert_digits digits _)
      (codeUnit?_digits digits ?_) (codeUnit?_digits digits ?_) ?_ ?_ ?_
    · omega
    · omega
    · simp only [isHighSurrogate, Bool.and_eq_true, decide_eq_true_iff]
      omega
    · simp only [isLowSurrogate, Bool.and_eq_true, decide_eq_true_iff]
      omega
    · have whole : 0x10000 + (0xD800 + (c.toNat - 0x10000) / 0x400 - 0xD800) * 0x400
          + (0xDC00 + (c.toNat - 0x10000) % 0x400 - 0xDC00) = c.toNat := by omega
      rw [ofSurrogates, whole, Char.ofNat_toNat]

/-- A visible ASCII character without a meaning of its own is inert. -/
theorem isInert_of_visible {c : Char} (special : c ∉ ['\\', ' ', '=', ':', '#', '!'])
    (visible : 0x20 ≤ c.toNat) : isInert c = true := by
  simp only [List.mem_cons, List.not_mem_nil, or_false, not_or] at special
  obtain ⟨backslash, space, equals, colon, number, mark⟩ := special
  have control : ∀ d : Char, d.toNat < 0x20 → c ≠ d := by
    rintro d low rfl
    omega
  rw [isInert_iff]
  refine ⟨?_, ?_, ?_⟩
  · simp [isSeparator, equals, colon]
  · simp [isBlank, space, control '\t' (by decide), control '\x0c' (by decide)]
  · simp [backslash, number, mark, control '\n' (by decide), control '\r' (by decide)]

theorem spells_encodeChar (digits : DigitCase) (c : Char) : Spells c (encodeChar digits c) := by
  rw [encodeChar]
  split
  · next special =>
    simp only [List.mem_cons, List.not_mem_nil, or_false] at special
    rcases special with rfl | rfl | rfl | rfl | rfl | rfl
    all_goals exact .letter (by decide) (by decide) rfl
  next special =>
  split
  · next tab => exact .letter (by decide) (by decide) tab.symm
  split
  · next newline => exact .letter (by decide) (by decide) newline.symm
  split
  · next return_ => exact .letter (by decide) (by decide) return_.symm
  split
  · next feed => exact .letter (by decide) (by decide) feed.symm
  split
  · next visible => exact .plain (isInert_of_visible special visible.1)
  · exact spells_codeUnits digits c

/-! ## Reading a writing -/

theorem spanKey_inert {text : List Char} (h : ∀ c ∈ text, isInert c = true) (rest : List Char) :
    spanKey (text ++ rest) = (text ++ (spanKey rest).1, (spanKey rest).2) := by
  induction text with
  | nil => rfl
  | cons c text ih =>
    rw [List.forall_mem_cons] at h
    obtain ⟨separator, blank, -⟩ := isInert_iff.mp h.1
    rw [List.cons_append, spanKey_plain (ne_of_isInert h.1) (by simp [separator, blank]), ih h.2]
    rfl

theorem continues_inert {text : List Char} (h : ∀ c ∈ text, isInert c = true) (rest : List Char) :
    continues (text ++ rest) = continues rest := by
  induction text with
  | nil => rfl
  | cons c text ih =>
    rw [List.forall_mem_cons] at h
    rw [List.cons_append, continues_cons (ne_of_isInert h.1), ih h.2]

namespace Spells

variable {c : Char} {writing : List Char}

/-- A writing is part of a raw key. -/
theorem spanKey_append (h : Spells c writing) (rest : List Char) :
    spanKey (writing ++ rest) = (writing ++ (spanKey rest).1, (spanKey rest).2) := by
  cases h with
  | plain inert => exact spanKey_inert (by simpa using inert) rest
  | letter => exact spanKey_pair _ rest
  | @unit a b d e _ inert =>
    change spanKey ('\\' :: 'u' :: ([a, b, d, e] ++ rest)) = _
    rw [spanKey_pair, spanKey_inert inert]
    rfl
  | @surrogates a b d e a' b' d' e' _ _ inert inert' =>
    change spanKey ('\\' :: 'u' :: ([a, b, d, e] ++ '\\' :: 'u' :: ([a', b', d', e'] ++ rest))) = _
    rw [spanKey_pair, spanKey_inert inert, spanKey_pair, spanKey_inert inert']
    rfl

/-- A line goes on after a writing exactly if what follows goes on. -/
theorem continues_append (h : Spells c writing) (rest : List Char) :
    continues (writing ++ rest) = continues rest := by
  cases h with
  | plain inert => exact continues_inert (by simpa using inert) rest
  | letter => exact continues_pair _ rest
  | @unit a b d e _ inert =>
    change continues ('\\' :: 'u' :: ([a, b, d, e] ++ rest)) = _
    rw [continues_pair, continues_inert inert]
  | @surrogates a b d e a' b' d' e' _ _ inert inert' =>
    change continues ('\\' :: 'u' :: ([a, b, d, e] ++ '\\' :: 'u' :: ([a', b', d', e'] ++ rest))) = _
    rw [continues_pair, continues_inert inert, continues_pair, continues_inert inert']

/-- A writing is read as the character. -/
theorem unescape?_append (h : Spells c writing) (rest : List Char) :
    unescape? (writing ++ rest) = (unescape? rest).map (c :: ·) := by
  cases h with
  | plain inert => exact unescape?_plain (ne_of_isInert inert) rest
  | letter unit _ same =>
    subst same
    exact unescape?_letter unit rest
  | unit _ digits high low same =>
    subst same
    simp only [List.cons_append, List.nil_append, unescape?, digits, high, low, if_false,
      Bool.false_eq_true]
  | surrogates _ _ digits digits' high low same =>
    subst same
    simp only [List.cons_append, List.nil_append, unescape?, digits, digits', high, low, if_true]

/-- A writing stays on its line. -/
theorem unbroken (h : Spells c writing) : ∀ d ∈ writing, d ≠ '\n' ∧ d ≠ '\r' := by
  have clear : ∀ d, isInert d = true → d ≠ '\n' ∧ d ≠ '\r' := by
    intro d inert
    constructor
    · rintro rfl
      cases inert
    · rintro rfl
      cases inert
  cases h with
  | plain inert => simpa using clear c inert
  | letter _ unbroken => simpa using unbroken
  | unit inert =>
    simp only [List.forall_mem_cons] at inert ⊢
    obtain ⟨ha, hb, hd, he, -⟩ := inert
    exact ⟨by decide, by decide, clear _ ha, clear _ hb, clear _ hd, clear _ he, nofun⟩
  | surrogates inert inert' =>
    simp only [List.forall_mem_cons] at inert inert' ⊢
    obtain ⟨ha, hb, hd, he, -⟩ := inert
    obtain ⟨ha', hb', hd', he', -⟩ := inert'
    exact ⟨by decide, by decide, clear _ ha, clear _ hb, clear _ hd, clear _ he, by decide,
      by decide, clear _ ha', clear _ hb', clear _ hd', clear _ he', nofun⟩

/-- A writing begins with a backslash or a character that stands for itself. -/
theorem exists_cons (h : Spells c writing) :
    ∃ d tail, writing = d :: tail ∧ (d = '\\' ∨ isInert d = true) := by
  cases h with
  | plain inert => exact ⟨_, _, rfl, .inr inert⟩
  | letter => exact ⟨_, _, rfl, .inl rfl⟩
  | unit => exact ⟨_, _, rfl, .inl rfl⟩
  | surrogates => exact ⟨_, _, rfl, .inl rfl⟩

end Spells

/-! ## Written texts -/

theorem encode_cons (digits : DigitCase) (c : Char) (text : List Char) :
    encode digits (c :: text) = encodeChar digits c ++ encode digits text := rfl

theorem spanKey_encode (digits : DigitCase) (text rest : List Char) :
    spanKey (encode digits text ++ rest) =
      (encode digits text ++ (spanKey rest).1, (spanKey rest).2) := by
  induction text with
  | nil => rfl
  | cons c text ih =>
    rw [encode_cons, List.append_assoc, (spells_encodeChar digits c).spanKey_append, ih,
      List.append_assoc]

theorem continues_encode (digits : DigitCase) (text rest : List Char) :
    continues (encode digits text ++ rest) = continues rest := by
  induction text with
  | nil => rfl
  | cons c text ih =>
    rw [encode_cons, List.append_assoc, (spells_encodeChar digits c).continues_append, ih]

theorem unescape?_encode (digits : DigitCase) (text : List Char) :
    unescape? (encode digits text) = some text := by
  induction text with
  | nil => rfl
  | cons c text ih =>
    rw [encode_cons, (spells_encodeChar digits c).unescape?_append, ih]
    rfl

theorem unbroken_encode (digits : DigitCase) (text : List Char) :
    ∀ c ∈ encode digits text, c ≠ '\n' ∧ c ≠ '\r' := by
  intro c inside
  obtain ⟨d, -, inside⟩ := List.mem_flatMap.mp inside
  exact (spells_encodeChar digits d).unbroken c inside

/-- A written text neither begins with a blank nor opens a comment. -/
theorem head_encode (digits : DigitCase) (text : List Char) :
    ∀ c ∈ (encode digits text).head?, isBlank c = false ∧ c ≠ '#' ∧ c ≠ '!' := by
  cases text with
  | nil => nofun
  | cons c text =>
    obtain ⟨d, tail, writing, first⟩ := (spells_encodeChar digits c).exists_cons
    intro e head
    rw [encode_cons, writing] at head
    obtain rfl : d = e := Option.some.inj head
    rcases first with rfl | inert
    · decide
    · obtain ⟨-, blank, special⟩ := isInert_iff.mp inert
      simp only [List.mem_cons, not_or] at special
      exact ⟨blank, special.2.1, special.2.2.1⟩

/-! ## Written lines -/

/-- A natural line that is a logical line by itself. -/
structure StandsAlone (line : List Char) : Prop where
  begins : line.dropWhile isBlank = line
  counts : isIgnored line = false
  ends : continues line = false

/-- Lines that stand alone are the logical lines, each with its number. -/
theorem gather_of_standsAlone {lines : List (List Char)} (h : ∀ line ∈ lines, StandsAlone line)
    (first : Nat) :
    gather first none lines = (lines.zipIdx first).map fun (text, line) => ⟨text, line⟩ := by
  induction lines generalizing first with
  | nil => rfl
  | cons line lines ih =>
    rw [List.forall_mem_cons] at h
    simp only [gather, h.1.begins, h.1.counts, h.1.ends, List.zipIdx_cons, List.map_cons,
      ih h.2 (first + 1), Bool.false_eq_true, if_false]

theorem standsAlone_definitionLine (digits : DigitCase) (definition : List Char × List Char) :
    StandsAlone (definitionLine digits definition) := by
  obtain ⟨key, value⟩ := definition
  have head : ∀ c ∈ (definitionLine digits (key, value)).head?,
      isBlank c = false ∧ c ≠ '#' ∧ c ≠ '!' := by
    intro c inside
    rw [definitionLine, List.head?_append, Option.mem_def, Option.or_eq_some_iff] at inside
    rcases inside with inside | ⟨-, inside⟩
    · exact head_encode digits key c inside
    · obtain rfl : '=' = c := Option.some.inj inside
      decide
  refine ⟨Text.dropWhile_eq_self fun c inside => (head c inside).1, ?_, ?_⟩
  · cases line : definitionLine digits (key, value) with
    | nil => simp [definitionLine] at line
    | cons c rest =>
      rw [line] at head
      obtain ⟨-, number, mark⟩ := head c rfl
      simp [isIgnored, number, mark]
  · rw [definitionLine, continues_encode, continues_cons (by decide)]
    have last := continues_encode digits value []
    rwa [List.append_nil] at last

/-- The line that defines a value for a key is read as that. -/
theorem ofLine?_definitionLine (digits : DigitCase) (key value : List Char) (line : Nat) :
    Entry.ofLine? ⟨definitionLine digits (key, value), line⟩ = .ok ⟨key, value, line⟩ := by
  have keyPart : spanKey (definitionLine digits (key, value)) =
      (encode digits key, '=' :: encode digits value) := by
    rw [definitionLine, spanKey_encode]
    simp [spanKey, isSeparator]
  have valuePart : afterSeparator ('=' :: encode digits value) = encode digits value := by
    have begins := Text.dropWhile_eq_self fun c inside => (head_encode digits value c inside).1
    simp [afterSeparator, isBlank, isSeparator, begins]
  simp only [Entry.ofLine?, splitKeyValue, keyPart, valuePart, unescape?_encode]

theorem unbroken_definitionLine (digits : DigitCase) (definition : List Char × List Char) :
    ∀ c ∈ definitionLine digits definition, c ≠ '\n' ∧ c ≠ '\r' := by
  obtain ⟨key, value⟩ := definition
  rw [definitionLine, List.forall_mem_append, List.forall_mem_cons]
  exact ⟨unbroken_encode digits key, by decide, unbroken_encode digits value⟩

theorem definitionLine_ne_nil (digits : DigitCase) (definition : List Char × List Char) :
    definitionLine digits definition ≠ [] :=
  List.append_ne_nil_of_right_ne_nil _ (List.cons_ne_nil _ _)

/-! ## Files of definitions -/

/-- The definitions in the order of a list, each on a line of its own. -/
def numbered (definitions : List (List Char × List Char)) : List Entry :=
  (definitions.zipIdx 1).map fun ((key, value), line) => ⟨key, value, line⟩

/-- A text is read as the definitions that its lines define. -/
theorem parse_of_lines {digits : DigitCase} {definitions : List (List Char × List Char)}
    {text : List Char} (h : Text.lines text = definitions.map (definitionLine digits)) :
    parse text = .ok (numbered definitions) := by
  have alone : ∀ line ∈ definitions.map (definitionLine digits), StandsAlone line := by
    intro line inside
    obtain ⟨definition, -, rfl⟩ := List.mem_map.mp inside
    exact standsAlone_definitionLine digits definition
  rw [parse, LogicalLine.ofText, h, gather_of_standsAlone alone, mapM_eq_ok_iff, numbered,
    List.zipIdx_map, List.map_map, List.forall₂_map_left_iff, List.forall₂_map_right_iff,
    List.forall₂_same]
  rintro ⟨⟨key, value⟩, line⟩ -
  exact ofLine?_definitionLine digits key value line

/-- A resource file can hold all keys and values: the written definitions, each on a line of its
own, are read as they are, in order and with the numbers of their lines. The last line may lack its
newline. -/
theorem parse_encoded (digits : DigitCase) (definitions : List (List Char × List Char)) :
    parse (definitions.flatMap fun definition => definitionLine digits definition ++ ['\n']) =
        .ok (numbered definitions) ∧
      parse (['\n'].intercalate (definitions.map (definitionLine digits))) =
        .ok (numbered definitions) := by
  have unbroken : ∀ line ∈ definitions.map (definitionLine digits), ∀ c ∈ line,
      c ≠ '\n' ∧ c ≠ '\r' := by
    intro line inside
    obtain ⟨definition, -, rfl⟩ := List.mem_map.mp inside
    exact unbroken_definitionLine digits definition
  have nonempty : ∀ line ∈ definitions.map (definitionLine digits), line ≠ [] := by
    intro line inside
    obtain ⟨definition, -, rfl⟩ := List.mem_map.mp inside
    exact definitionLine_ne_nil digits definition
  constructor
  · apply parse_of_lines
    rw [← Text.lines_flatMap_newline unbroken, List.flatMap_map]
  · exact parse_of_lines (Text.lines_intercalate_newline unbroken nonempty)

example :
    definitionLine .upper ("#é 😀".toList, " \\".toList) =
      "\\#\\u00E9\\ \\uD83D\\uDE00=\\ \\\\".toList := by decide

end LocaleKeys.Properties
