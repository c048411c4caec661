import LocaleKeys.Json.Reader
import LocaleKeys.Proofs.Json.Token
import Mathlib.Data.List.TakeWhile

/-!
# Printed JSON is read back

The text of a value is a JSON document, and the reader comes to the value again (`parse?_print`).
The tokens of the text take the reader from a place where a value is expected to the place behind
the value (`Writes`), whatever arrays and objects are open around it. Texts and natural numbers can
be taken out of the values that stand for them (`decode?_encode`, `natural?_ofNat`).
-/

namespace LocaleKeys.Json

open Token (Lexes Separates)

/-- A value that can be printed: its numbers are written as numbers, and its strings hold code
points. -/
inductive Printable : Json → Prop where
  | null : Printable .null
  | bool (value : Bool) : Printable (.bool value)
  | number {literal : List Char} (h : Token.isNumber literal = true) : Printable (.number literal)
  | string {units : List Nat} (h : ∀ unit ∈ units, unit < 0x110000) : Printable (.string units)
  | array {items : List Json} (h : ∀ item ∈ items, Printable item) : Printable (.array items)
  | object {members : List (List Nat × Json)}
      (names : ∀ member ∈ members, ∀ unit ∈ member.1, unit < 0x110000)
      (values : ∀ member ∈ members, Printable member.2) : Printable (.object members)

/-- The text has tokens that take the reader past the value. -/
def Writes (text : List Char) (value : Json) : Prop :=
  ∃ tokens, Lexes text tokens ∧
    ∀ stack, tokens.foldlM State.next? (.value stack) = some (.after value stack)

variable {text : List Char} {value : Json}

/-- A value that is one token. -/
theorem writes_token {token : Token} (h : Lexes text [token])
    (begins : ∀ stack, State.begin? stack token = some (.after value stack)) :
    Writes text value := by
  refine ⟨[token], h, fun stack => ?_⟩
  have next : State.next? (.value stack) token = some (.after value stack) := begins stack
  rw [List.foldlM_cons, next]
  rfl

/-- The first item of an array may be any value. -/
theorem run_firstItem {tokens : List Token} {stack : List Frame}
    (h : tokens.foldlM State.next? (.value (.array [] :: stack))
      = some (.after value (.array [] :: stack))) :
    tokens.foldlM State.next? (.firstItem stack) = some (.after value (.array [] :: stack)) := by
  cases tokens with
  | nil => cases h
  | cons token tokens =>
    cases token with
    | closeArray => cases h
    | _ => exact h

/-! ## Arrays -/

/-- Further items of an array, up to its end. -/
theorem items_close {items : List Json} {depth : Nat}
    (h : ∀ item ∈ items, Writes (printAt (depth + 1) item) item) :
    ∃ tokens, Separates (printItems (depth + 1) items ++ (newLine depth ++ [']'])) tokens ∧
      ∀ last before stack,
        tokens.foldlM State.next? (.after last (.array before :: stack))
          = some (.after (.array ((last :: before).reverse ++ items)) stack) := by
  induction items with
  | nil =>
    refine ⟨[.closeArray], (Token.separates_newLine depth).append
      (Token.separates_punctuation rfl), fun last before stack => ?_⟩
    rw [List.append_nil]
    rfl
  | cons item items ih =>
    rw [List.forall_mem_cons] at h
    obtain ⟨tokens, lexes, run⟩ := h.1
    obtain ⟨tokens', closes, run'⟩ := ih h.2
    have comma : Separates (',' :: newLine (depth + 1)) [.comma] :=
      (Token.separates_punctuation rfl).append (Token.separates_newLine _)
    refine ⟨[.comma] ++ tokens ++ tokens', ?_, fun last before stack => ?_⟩
    · have whole := comma.around lexes closes
      rw [printItems]
      simpa only [List.append_assoc] using whole
    · have next : State.next? (.after last (.array before :: stack)) .comma
          = some (.value (.array (last :: before) :: stack)) := rfl
      rw [List.foldlM_append, List.foldlM_append, List.foldlM_cons, next]
      simp [run, run']

theorem writes_array {items : List Json} {depth : Nat}
    (h : ∀ item ∈ items, Writes (printAt (depth + 1) item) item) :
    Writes (printAt depth (.array items)) (.array items) := by
  cases items with
  | nil =>
    have brackets : Separates ['[', ']'] [.openArray, .closeArray] :=
      (Token.separates_punctuation rfl).append (Token.separates_punctuation rfl)
    rw [printAt]
    exact ⟨_, brackets.lexes, fun stack => rfl⟩
  | cons item items =>
    rw [List.forall_mem_cons] at h
    obtain ⟨tokens, lexes, run⟩ := h.1
    obtain ⟨tokens', closes, run'⟩ := items_close h.2
    have bracket : Separates ('[' :: newLine (depth + 1)) [.openArray] :=
      (Token.separates_punctuation rfl).append (Token.separates_newLine _)
    refine ⟨[.openArray] ++ tokens ++ tokens', ?_, fun stack => ?_⟩
    · have whole := (bracket.around lexes closes).lexes
      rw [printAt]
      simpa only [List.append_assoc] using whole
    · have next : State.next? (.value stack) .openArray = some (.firstItem stack) := rfl
      rw [List.foldlM_append, List.foldlM_append, List.foldlM_cons, next]
      simp [run_firstItem (run _), run']

/-! ## Objects -/

/-- The name and the value of a member, in an object that is open. -/
theorem writes_member {name : List Nat} {depth : Nat} (named : ∀ unit ∈ name, unit < 0x110000)
    (h : Writes (printAt depth value) value) :
    ∃ tokens, Lexes (printMember depth (name, value)) (.string name :: tokens) ∧
      ∀ members stack, tokens.foldlM State.next? (.colon members name stack)
        = some (.after value (.object members name :: stack)) := by
  obtain ⟨tokens, lexes, run⟩ := h
  have colon : Separates [':', ' '] [.colon] :=
    (Token.separates_punctuation rfl).append (Token.separates_space (by decide))
  refine ⟨.colon :: tokens, ?_, fun members stack => ?_⟩
  · have whole := ((Token.separates_printString named).append colon).append_lexes lexes
    rw [printMember]
    simpa using whole
  · exact run (.object members name :: stack)

/-- Further members of an object, up to its end. -/
theorem members_close {members : List (List Nat × Json)} {depth : Nat}
    (names : ∀ member ∈ members, ∀ unit ∈ member.1, unit < 0x110000)
    (h : ∀ member ∈ members, Writes (printAt (depth + 1) member.2) member.2) :
    ∃ tokens, Separates (printMembers (depth + 1) members ++ (newLine depth ++ ['\x7d'])) tokens ∧
      ∀ last name before stack,
        tokens.foldlM State.next? (.after last (.object before name :: stack))
          = some (.after (.object (((name, last) :: before).reverse ++ members)) stack) := by
  induction members with
  | nil =>
    refine ⟨[.closeObject], (Token.separates_newLine depth).append
      (Token.separates_punctuation rfl), fun last name before stack => ?_⟩
    rw [List.append_nil]
    rfl
  | cons member members ih =>
    rw [List.forall_mem_cons] at names h
    obtain ⟨tokens, lexes, run⟩ := writes_member names.1 h.1
    obtain ⟨tokens', closes, run'⟩ := ih names.2 h.2
    have comma : Separates (',' :: newLine (depth + 1)) [.comma] :=
      (Token.separates_punctuation rfl).append (Token.separates_newLine _)
    refine ⟨[.comma] ++ (.string member.1 :: tokens) ++ tokens', ?_,
      fun last name before stack => ?_⟩
    · have whole := comma.around lexes closes
      rw [printMembers]
      simpa only [List.append_assoc] using whole
    · have next : State.next? (.after last (.object before name :: stack)) .comma
          = some (.name ((name, last) :: before) stack) := rfl
      have named : State.next? (.name ((name, last) :: before) stack) (.string member.1)
          = some (.colon ((name, last) :: before) member.1 stack) := rfl
      rw [List.foldlM_append, List.foldlM_append, List.foldlM_cons, next]
      simp [named, run, run']

theorem writes_object {members : List (List Nat × Json)} {depth : Nat}
    (names : ∀ member ∈ members, ∀ unit ∈ member.1, unit < 0x110000)
    (h : ∀ member ∈ members, Writes (printAt (depth + 1) member.2) member.2) :
    Writes (printAt depth (.object members)) (.object members) := by
  cases members with
  | nil =>
    have braces : Separates ['\x7b', '\x7d'] [.openObject, .closeObject] :=
      (Token.separates_punctuation rfl).append (Token.separates_punctuation rfl)
    rw [printAt]
    exact ⟨_, braces.lexes, fun stack => rfl⟩
  | cons member members =>
    rw [List.forall_mem_cons] at names h
    obtain ⟨tokens, lexes, run⟩ := writes_member names.1 h.1
    obtain ⟨tokens', closes, run'⟩ := members_close names.2 h.2
    have brace : Separates ('\x7b' :: newLine (depth + 1)) [.openObject] :=
      (Token.separates_punctuation rfl).append (Token.separates_newLine _)
    refine ⟨[.openObject] ++ (.string member.1 :: tokens) ++ tokens', ?_, fun stack => ?_⟩
    · have whole := (brace.around lexes closes).lexes
      rw [printAt]
      simpa only [List.append_assoc] using whole
    · have next : State.next? (.value stack) .openObject = some (.firstName stack) := rfl
      have named : State.next? (.firstName stack) (.string member.1)
          = some (.colon [] member.1 stack) := rfl
      rw [List.foldlM_append, List.foldlM_append, List.foldlM_cons, next]
      simp [named, run, run']

/-! ## The whole text -/

/-- The text of a printable value takes the reader past it, at any depth. -/
theorem Printable.writes (h : Printable value) (depth : Nat) :
    Writes (printAt depth value) value := by
  induction h generalizing depth with
  | null =>
    have word : Lexes "null".toList [.null] := Token.lexes_word rfl (by decide) (by decide)
    rw [printAt]
    exact writes_token word fun _ => rfl
  | bool b =>
    rw [printAt]
    cases b with
    | true =>
      exact writes_token (Token.lexes_word rfl (by decide) (by decide)) fun _ => rfl
    | false =>
      exact writes_token (Token.lexes_word rfl (by decide) (by decide)) fun _ => rfl
  | number h =>
    rw [printAt]
    exact writes_token (Token.lexes_number h) fun _ => rfl
  | string h =>
    rw [printAt]
    exact writes_token (Token.separates_printString h).lexes fun _ => rfl
  | array h ih => exact writes_array fun item inside => ih item inside _
  | object names h ih => exact writes_object names fun member inside => ih member inside _

/-- The reader comes to the value that was printed, also if white space follows it. -/
theorem parse?_print_append (h : Printable value) {space : List Char}
    (blank : space.all Token.isSpace = true) : parse? (print value ++ space) = some value := by
  obtain ⟨tokens, lexes, run⟩ := h.writes 0
  have whole : Lexes (print value ++ space) tokens := by
    cases space with
    | nil =>
      rw [List.append_nil]
      exact lexes
    | cons c space =>
      rw [List.all_cons, Bool.and_eq_true, List.all_eq_true] at blank
      have behind := lexes.append (Token.separates_spaces blank.1 blank.2)
      rwa [List.append_nil] at behind
  rw [parse?, whole.cut?_eq, Option.bind_some, ofTokens?, run, Option.bind_some]
  rfl

theorem parse?_print (h : Printable value) : parse? (print value) = some value := by
  have none : [].all Token.isSpace = true := rfl
  have whole := parse?_print_append h none
  rwa [List.append_nil] at whole

/-! ## Texts and natural numbers -/

/-- The code points of a text are read as the text. -/
theorem decode?_encode (text : List Char) : decode? (encode text) = some text := by
  induction text with
  | nil => rfl
  | cons c text ih =>
    have scalar := Text.not_isSurrogate c
    cases text with
    | nil => simp [encode, decode?, scalar]
    | cons d text =>
      simp only [encode, List.map_cons] at ih ⊢
      simp [decode?, scalar, ih]

theorem text?_ofText (text : String) : (ofText text).text? = some text.toList :=
  decode?_encode text.toList

theorem lt_of_mem_encode {text : List Char} : ∀ unit ∈ encode text, unit < 0x110000 := by
  intro unit inside
  obtain ⟨c, -, rfl⟩ := List.mem_map.mp inside
  have valid : c.toNat < 0xD800 ∨ 0xDFFF < c.toNat ∧ c.toNat < 0x110000 := c.valid
  omega

theorem encode_injective {text text' : List Char} (h : encode text = encode text') :
    text = text' := by
  have same := congrArg decode? h
  rw [decode?_encode, decode?_encode] at same
  exact Option.some.inj same

/-- A number has no needless zero in front. -/
theorem head?_toDigits {n : Nat} (h : n ≠ 0) : (Nat.toDigits 10 n).head? ≠ some '0' := by
  rw [Nat.toDigits_eq_if (by decide)]
  split
  · next small =>
    have all : ∀ k < 10, Nat.digitChar k = '0' → k = 0 := by decide
    intro zero
    exact h (all n small (Option.some.inj zero))
  · have front : n / 10 ≠ 0 := by omega
    have ih := head?_toDigits front
    obtain ⟨c, rest, same⟩ :=
      List.exists_cons_of_ne_nil (Nat.toDigits_ne_nil (n := n / 10) (b := 10))
    rw [same] at ih ⊢
    exact ih
termination_by n

theorem isNumber_toDigits (n : Nat) : Token.isNumber (Nat.toDigits 10 n) = true := by
  by_cases zero : n = 0
  · subst zero
    rfl
  · have digits : ∀ c ∈ Nat.toDigits 10 n, c.isDigit = true :=
      fun c => Nat.isDigit_of_mem_toDigits (by decide) (by decide)
    have front := head?_toDigits zero
    obtain ⟨c, rest, same⟩ := List.exists_cons_of_ne_nil (Nat.toDigits_ne_nil (n := n) (b := 10))
    rw [same] at digits front ⊢
    have unsigned : c ≠ '-' := by
      rintro rfl
      exact absurd (digits '-' (by simp)) (by decide)
    have whole : c ≠ '0' := fun zero => front (congrArg some zero)
    have integer : Token.afterInteger? (c :: rest) = some [] := by
      have all : List.dropWhile Char.isDigit (c :: rest) = [] := List.dropWhile_eq_nil_iff.mpr digits
      simp [Token.afterInteger?, Token.afterDigits?, whole, all, digits c]
    have sign : Token.dropSign (c :: rest) = c :: rest := by simp [Token.dropSign, unsigned]
    rw [Token.isNumber, sign, integer]
    rfl

/-- The number that digits write. -/
def natural? : Json → Option Nat
  | .number literal => if literal.all Char.isDigit then some (Nat.ofDigitChars 10 literal 0) else none
  | _ => none

@[simp]
theorem natural?_ofNat (n : Nat) : (ofNat n).natural? = some n := by
  have digits : (Nat.toDigits 10 n).all Char.isDigit = true := by
    rw [List.all_eq_true]
    exact fun c => Nat.isDigit_of_mem_toDigits (by decide) (by decide)
  rw [ofNat, natural?, if_pos digits, Nat.ofDigitChars_toDigits (by decide) (by decide)]

/-! ## Printable values -/

@[simp]
theorem printable_ofText (text : String) : Printable (ofText text) :=
  .string lt_of_mem_encode

@[simp]
theorem printable_ofNat (n : Nat) : Printable (ofNat n) :=
  .number (isNumber_toDigits n)

theorem printable_array_map {α : Type} (f : α → Json) (h : ∀ a, Printable (f a)) (items : List α) :
    Printable (.array (items.map f)) := by
  refine .array fun item inside => ?_
  obtain ⟨a, -, rfl⟩ := List.mem_map.mp inside
  exact h a

theorem printable_ofMembers {members : List (String × Json)}
    (h : ∀ member ∈ members, Printable member.2) : Printable (ofMembers members) := by
  refine .object (fun member inside => ?_) (fun member inside => ?_)
  · obtain ⟨⟨name, value⟩, -, rfl⟩ := List.mem_map.mp inside
    exact lt_of_mem_encode
  · obtain ⟨source, own, rfl⟩ := List.mem_map.mp inside
    exact h source own

end LocaleKeys.Json
