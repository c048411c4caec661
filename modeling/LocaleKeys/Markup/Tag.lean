import LocaleKeys.Markup.CharacterData

/-!
# Tags

The names and attributes in a tag, read from the text between its marks. A name has at most one
colon, which sets a qualifier apart; attributes come after white space and have their value in
quotes.
-/

namespace LocaleKeys.Markup

/-- A name with an optional qualifier, which is empty if there is none. -/
structure QualifiedName where
  qualifier : List Char
  name : List Char
deriving DecidableEq

/-- An attribute of an element. -/
structure Attribute where
  name : QualifiedName
  value : List Char
deriving DecidableEq

/-- A tag that opens an element. -/
structure Tag where
  name : QualifiedName
  attributes : List Attribute
  /-- The tag closes its element as well. -/
  closesItself : Bool
deriving DecidableEq

/-- A text that starts like a name, if it is not empty. -/
def startsName (text : List Char) : Bool :=
  text.head?.all isNameStart

/-- The name that a run of name characters spells. -/
def QualifiedName.ofRun? (run : List Char) : Option QualifiedName :=
  match run.splitOn ':' with
  | [name] => if startsName name && !name.isEmpty then some ⟨[], name⟩ else none
  | [qualifier, name] =>
    if startsName qualifier && startsName name && !name.isEmpty then some ⟨qualifier, name⟩
    else none
  | _ => none

/-- The name at the start of a text, and what follows it. -/
def readName? (text : List Char) : Option (QualifiedName × List Char) :=
  (QualifiedName.ofRun? (text.takeWhile isNameChar)).map (·, text.dropWhile isNameChar)

/-- A text without the white space at its start. -/
def skipSpaces (text : List Char) : List Char :=
  text.dropWhile isSpace

/-- The value in quotes at the start of a text, and what follows it. -/
def readQuoted? : List Char → Option (List Char × List Char)
  | [] => none
  | quote :: text =>
    if quote = '"' ∨ quote = '\'' then
      let value := text.takeWhile fun c => c != quote && c != '<'
      match text.dropWhile fun c => c != quote && c != '<' with
      | [] => none
      | c :: rest => if c = quote ∧ value.all isAllowed then some (value, rest) else none
    else none

/-- The value after an equals sign, with white space around the sign. -/
def readValue? (text : List Char) : Option (List Char × List Char) :=
  match skipSpaces text with
  | '=' :: text => readQuoted? (skipSpaces text)
  | _ => none

/-- The attribute at the start of a text, and what follows it. -/
def readAttribute? (text : List Char) : Option (Attribute × List Char) :=
  (readName? text).bind fun (name, text) =>
    (readValue? text).map fun (value, rest) => (⟨name, value⟩, rest)

/-! ## A read part is never empty -/

theorem length_dropWhile_le (p : Char → Bool) (text : List Char) :
    (text.dropWhile p).length ≤ text.length :=
  (List.dropWhile_suffix p).length_le

theorem length_readQuoted? {text value rest : List Char}
    (h : readQuoted? text = some (value, rest)) : rest.length < text.length := by
  cases text with
  | nil => simp [readQuoted?] at h
  | cons quote text =>
    have bound := length_dropWhile_le (fun c => c != quote && c != '<') text
    simp only [readQuoted?] at h
    split at h
    · split at h
      · simp at h
      · rename_i _ c tail eq
        rw [eq] at bound
        split at h
        · simp only [Option.some.injEq, Prod.mk.injEq] at h
          rw [← h.2]
          simp only [List.length_cons] at bound ⊢
          omega
        · simp at h
    · simp at h

theorem length_readValue? {text value rest : List Char}
    (h : readValue? text = some (value, rest)) : rest.length < text.length := by
  have outer := length_dropWhile_le isSpace text
  simp only [readValue?, skipSpaces] at h
  split at h
  · rename_i tail eq
    have inner := length_dropWhile_le isSpace tail
    have quoted := length_readQuoted? h
    rw [eq] at outer
    simp only [List.length_cons] at outer
    omega
  · simp at h

theorem length_readAttribute? {text rest : List Char} {found : Attribute}
    (h : readAttribute? text = some (found, rest)) : rest.length < text.length := by
  simp only [readAttribute?, readName?, Option.bind_eq_some_iff, Option.map_eq_some_iff] at h
  obtain ⟨⟨name, after⟩, ⟨_, _, hname⟩, ⟨value, tail⟩, hvalue, hrest⟩ := h
  simp only [Prod.mk.injEq] at hname hrest
  have bound := length_dropWhile_le isNameChar text
  have shorter := length_readValue? hvalue
  simp only [← hname.2] at shorter
  rw [← hrest.2]
  omega

theorem length_readAttribute?_skipSpaces {text rest : List Char} {found : Attribute}
    (h : readAttribute? (skipSpaces text) = some (found, rest)) : rest.length < text.length :=
  Nat.lt_of_lt_of_le (length_readAttribute? h) (length_dropWhile_le isSpace text)

/-- The attributes of a tag, and whether the tag ends in a slash. -/
def readAttributes? (text : List Char) : Option (List Attribute × Bool) :=
  match skipSpaces text with
  | [] => some ([], false)
  | ['/'] => some ([], true)
  | _ =>
    if text.head?.any isSpace then
      match h : readAttribute? (skipSpaces text) with
      | none => none
      | some (found, rest) =>
        have := length_readAttribute?_skipSpaces h
        (readAttributes? rest).map fun (attributes, closes) => (found :: attributes, closes)
    else none
termination_by text.length

/-- The tag that opens an element, from the text between its marks. -/
def Tag.ofRaw? (raw : List Char) : Option Tag :=
  (readName? raw).bind fun (name, rest) =>
    (readAttributes? rest).map fun (attributes, closes) => ⟨name, attributes, closes⟩

/-- The name in a tag that closes an element, from the text between its marks. -/
def closingName? (raw : List Char) : Option QualifiedName :=
  (readName? raw).bind fun (name, rest) => if rest.all isSpace then some name else none

end LocaleKeys.Markup
