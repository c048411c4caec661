import LocaleKeys.Key
import LocaleKeys.Proofs.Text

/-!
# Stored forms of keys

`escape` goes character by character (`escape_eq_flatMap`), so it is never shorter than the text and
takes pieces to pieces. A stored form does not tell a space from an underscore: it is that of the
text with underscores in place of spaces (`escape_underscored`). It tells everything else, because
the backslashes in front of separators can be taken away again (`bare_escape`,
`propertiesKey_eq_iff`). The defects that are looked for in the stored form show in the text of the
key (`defect?_eq_some_iff`). `Key.Storable` are the keys whose stored form a resource file can hold
as it is.
-/

namespace LocaleKeys.Key

/-- The stored form of a character. -/
def escapeChar (c : Char) : List Char :=
  if c = ' ' then ['_'] else if c = '=' ∨ c = ':' then ['\\', c] else [c]

theorem escape_eq_flatMap (text : List Char) : escape text = text.flatMap escapeChar := by
  induction text with
  | nil => rfl
  | cons c text ih =>
    rw [escape, List.flatMap_cons, ← ih, escapeChar]
    split
    · rfl
    · split <;> rfl

@[simp] theorem escape_nil : escape [] = [] := rfl

@[simp] theorem escape_cons (c : Char) (text : List Char) :
    escape (c :: text) = escapeChar c ++ escape text := by
  simp [escape_eq_flatMap]

@[simp] theorem escape_append (text text' : List Char) :
    escape (text ++ text') = escape text ++ escape text' := by
  simp [escape_eq_flatMap]

theorem toList_propertiesKey (key : Key) : key.propertiesKey.toList = escape key.text.toList := by
  rw [propertiesKey, String.toList_ofList]

@[simp] theorem escapeChar_space : escapeChar ' ' = ['_'] := rfl

theorem escapeChar_separator {c : Char} (h : c = '=' ∨ c = ':') : escapeChar c = ['\\', c] := by
  rcases h with rfl | rfl <;> rfl

theorem escapeChar_other {c : Char} (space : c ≠ ' ') (separator : ¬ (c = '=' ∨ c = ':')) :
    escapeChar c = [c] := by
  rw [escapeChar, if_neg space, if_neg separator]

theorem length_escapeChar (c : Char) : 1 ≤ (escapeChar c).length ∧ (escapeChar c).length ≤ 2 := by
  rw [escapeChar]
  split
  · decide
  · split <;> simp

theorem length_le_length_escape (text : List Char) : text.length ≤ (escape text).length := by
  induction text with
  | nil => exact Nat.le_refl _
  | cons c text ih =>
    have first := (length_escapeChar c).1
    rw [escape_cons, List.length_append, List.length_cons]
    omega

/-- Most characters are in a stored form exactly if they are in the text. -/
theorem mem_escape_iff {c : Char} (h : c ∉ [' ', '_', '\\']) {text : List Char} :
    c ∈ escape text ↔ c ∈ text := by
  simp only [List.mem_cons, List.not_mem_nil, not_or, or_false] at h
  obtain ⟨space, underscore, backslash⟩ := h
  have single : ∀ d, c ∈ escapeChar d ↔ c = d := by
    intro d
    rw [escapeChar]
    split
    · next h => simp [h, space, underscore]
    · split <;> simp [backslash]
  rw [escape_eq_flatMap, List.mem_flatMap]
  simp [single]

/-! ## Underscores in place of spaces -/

/-- A text with underscores in place of spaces. -/
def underscored (text : List Char) : List Char :=
  text.map fun c => if c = ' ' then '_' else c

@[simp] theorem underscored_cons (c : Char) (text : List Char) :
    underscored (c :: text) = (if c = ' ' then '_' else c) :: underscored text := rfl

theorem escape_underscored (text : List Char) : escape (underscored text) = escape text := by
  induction text with
  | nil => rfl
  | cons c text ih =>
    rw [underscored_cons, escape_cons, escape_cons, ih]
    by_cases space : c = ' '
    · subst space
      rfl
    · rw [if_neg space]

theorem getLast?_escape (text : List Char) :
    (escape text).getLast? = (underscored text).getLast? := by
  rcases List.eq_nil_or_concat text with rfl | ⟨before, c, rfl⟩
  · rfl
  · by_cases space : c = ' '
    · simp [underscored, space]
    · by_cases separator : c = '=' ∨ c = ':'
      · simp [underscored, space, escapeChar_separator separator]
      · simp [underscored, space, escapeChar_other space separator]

theorem head?_escape (text : List Char) :
    (escape text).head? =
      (underscored text).head?.map fun c => if c = '=' ∨ c = ':' then '\\' else c := by
  cases text with
  | nil => rfl
  | cons c text =>
    by_cases space : c = ' '
    · simp [underscored, space]
    · by_cases separator : c = '=' ∨ c = ':'
      · simp [underscored, space, escapeChar_separator separator, separator]
      · simp [underscored, space, escapeChar_other space separator, separator]

/-- Most characters begin a stored form exactly if they begin the text. -/
theorem head?_escape_eq_iff {c : Char} (h : c ∉ [' ', '_', '\\', '=', ':']) {text : List Char} :
    (escape text).head? = some c ↔ text.head? = some c := by
  simp only [List.mem_cons, List.not_mem_nil, not_or, or_false] at h
  obtain ⟨space, underscore, backslash, equals, colon⟩ := h
  cases text with
  | nil => exact Iff.rfl
  | cons d text =>
    by_cases blank : d = ' '
    · simp [blank, Ne.symm space, Ne.symm underscore]
    · by_cases separator : d = '=' ∨ d = ':'
      · rw [escape_cons, escapeChar_separator separator]
        rcases separator with rfl | rfl
        · simp [Ne.symm backslash, Ne.symm equals]
        · simp [Ne.symm backslash, Ne.symm colon]
      · simp [escapeChar_other blank separator]

theorem space_not_mem_escape (text : List Char) : ' ' ∉ escape text := by
  rw [escape_eq_flatMap, List.mem_flatMap]
  rintro ⟨c, -, inside⟩
  rw [escapeChar] at inside
  split at inside
  · cases inside with
    | tail _ inside => cases inside
  · next space =>
    split at inside
    · simp [Ne.symm space] at inside
    · simp [Ne.symm space] at inside

/-- White space at the ends shows in the stored form. -/
theorem trim_escape_eq_self_iff (text : List Char) :
    Text.trim (escape text) = escape text ↔ Text.trim (underscored text) = underscored text := by
  rw [Text.trim_eq_self_iff, Text.trim_eq_self_iff, getLast?_escape, head?_escape]
  apply and_congr_left'
  cases (underscored text).head? with
  | none => exact Iff.rfl
  | some c =>
    by_cases separator : c = '=' ∨ c = ':'
    · rcases separator with rfl | rfl <;> simp [Text.isSpace]
    · simp [separator]

/-- A text without white space at its ends is stored in a form without any there. -/
theorem trim_escape {text : List Char} (h : Text.trim text = text) :
    Text.trim (escape text) = escape text := by
  rw [trim_escape_eq_self_iff]
  rw [Text.trim_eq_self_iff] at h ⊢
  have visible : ∀ c, Text.isSpace c = false →
      Text.isSpace (if c = ' ' then '_' else c) = false := by
    intro c hc
    split
    · rfl
    · exact hc
  simp only [underscored, List.head?_map, List.getLast?_map, Option.mem_def,
    Option.map_eq_some_iff, forall_exists_index, and_imp, forall_apply_eq_imp_iff₂]
  exact ⟨fun c head => visible c (h.1 c head), fun c last => visible c (h.2 c last)⟩

/-! ## Texts of one stored form -/

/-- A stored form without the backslashes that stand directly in front of a separator. -/
def bare : List Char → List Char
  | [] => []
  | c :: stored =>
    if c = '\\' ∧ (stored.head? = some '=' ∨ stored.head? = some ':') then bare stored
    else c :: bare stored

theorem bare_cons_of_ne {c : Char} (h : c ≠ '\\') (stored : List Char) :
    bare (c :: stored) = c :: bare stored := by
  rw [bare, if_neg fun escapes => h escapes.1]

theorem bare_escapeChar_separator {c : Char} (h : c = '=' ∨ c = ':') (stored : List Char) :
    bare (escapeChar c ++ stored) = c :: bare stored := by
  have plain : c ≠ '\\' := by
    rcases h with rfl | rfl <;> decide
  rw [escapeChar_separator h, List.cons_append, List.singleton_append, bare,
    if_pos ⟨rfl, h.imp (congrArg some) (congrArg some)⟩, bare_cons_of_ne plain]

/-- No stored form begins with a separator, since its backslash stands in front. -/
theorem head?_escape_ne_separator {c : Char} (h : c = '=' ∨ c = ':') (text : List Char) :
    (escape text).head? ≠ some c := by
  rw [head?_escape, Ne, Option.map_eq_some_iff]
  rintro ⟨d, -, same⟩
  split at same
  · rcases h with rfl | rfl <;> exact absurd same (by decide)
  · next other => exact other (same ▸ h)

/-- The backslashes that are put in front of separators are the only ones that stand there. -/
theorem bare_escape (text : List Char) : bare (escape text) = underscored text := by
  induction text with
  | nil => rfl
  | cons c text ih =>
    rw [escape_cons, underscored_cons, ← ih]
    by_cases space : c = ' '
    · subst space
      exact bare_cons_of_ne (by decide) _
    · rw [if_neg space]
      by_cases separator : c = '=' ∨ c = ':'
      · exact bare_escapeChar_separator separator _
      -- A backslash of the text itself stays: what follows it in the stored form is no separator.
      · have kept : ¬ ((escape text).head? = some '=' ∨ (escape text).head? = some ':') := by
          rintro (equals | colon)
          · exact head?_escape_ne_separator (.inl rfl) text equals
          · exact head?_escape_ne_separator (.inr rfl) text colon
        rw [escapeChar_other space separator, List.singleton_append, bare,
          if_neg fun escapes => kept escapes.2]

theorem escape_eq_iff {text text' : List Char} :
    escape text = escape text' ↔ underscored text = underscored text' := by
  constructor
  · intro same
    rw [← bare_escape, ← bare_escape, same]
  · intro same
    rw [← escape_underscored, same, escape_underscored]

/-- Texts that differ in spaces and underscores only have everything else at the same places. -/
theorem getElem?_eq_iff_of_underscored {text text' : List Char}
    (h : underscored text = underscored text') {c : Char} (other : c ∉ [' ', '_']) (i : Nat) :
    text[i]? = some c ↔ text'[i]? = some c := by
  simp only [List.mem_cons, List.not_mem_nil, not_or, or_false] at other
  obtain ⟨space, underscore⟩ := other
  have shows : ∀ list : List Char, (underscored list)[i]? = some c ↔ list[i]? = some c := by
    intro list
    rw [underscored, List.getElem?_map, Option.map_eq_some_iff]
    constructor
    · rintro ⟨d, found, same⟩
      split at same
      · exact absurd same.symm underscore
      · rw [found, same]
    · intro found
      exact ⟨c, found, if_neg space⟩
  rw [← shows text, h, shows text']

/-- A stored form tells whether there is a backslash in the text. -/
theorem not_mem_of_escape_eq {text text' : List Char} (h : escape text = escape text')
    (plain : '\\' ∉ text') : '\\' ∉ text := by
  intro inside
  obtain ⟨i, found⟩ := List.getElem?_of_mem inside
  have other : '\\' ∉ [' ', '_'] := by decide
  have same := getElem?_eq_iff_of_underscored (escape_eq_iff.mp h) other i
  exact plain (List.mem_of_getElem? (same.mp found))

/-- Two keys have the same stored form exactly if their texts do not differ in more than spaces and
underscores. So keys are kept apart if a backslash or a separator of one has no counterpart at the
same place of the other. -/
theorem propertiesKey_eq_iff (s t : String) :
    ((Key.mk s).propertiesKey = (Key.mk t).propertiesKey ↔
      underscored s.toList = underscored t.toList) ∧
    ((∃ c ∈ ['\\', '=', ':'], ∃ i : Nat, ¬ (s.toList[i]? = some c ↔ t.toList[i]? = some c)) →
      (Key.mk s).propertiesKey ≠ (Key.mk t).propertiesKey) := by
  have merged : (Key.mk s).propertiesKey = (Key.mk t).propertiesKey ↔
      underscored s.toList = underscored t.toList := by
    rw [← escape_eq_iff, ← String.toList_inj, toList_propertiesKey, toList_propertiesKey]
  refine ⟨merged, ?_⟩
  rintro ⟨c, special, i, differ⟩ same
  refine differ (getElem?_eq_iff_of_underscored (merged.mp same) (fun other => ?_) i)
  simp only [List.mem_cons, List.not_mem_nil, or_false] at special other
  rcases other with rfl | rfl <;> exact absurd special (by decide)

/-! ## Defects -/

/-- A stored form ends with an underscore if the text ends with one or with a space. -/
theorem getLast?_escape_eq_underscore_iff {text : List Char} :
    (escape text).getLast? = some '_' ↔
      text.getLast? = some ' ' ∨ text.getLast? = some '_' := by
  rw [getLast?_escape, underscored, List.getLast?_map]
  cases text.getLast? with
  | none => simp
  | some c =>
    by_cases space : c = ' '
    · simp [space]
    · simp [space]

/-- A backslash in front of most characters is in a stored form exactly if it is in the text. -/
theorem pair_infix_escape_iff {c : Char} (h : c ∉ [' ', '_', '\\', '=', ':']) {text : List Char} :
    ['\\', c] <:+: escape text ↔ ['\\', c] <:+: text := by
  induction text with
  | nil => exact Iff.rfl
  | cons d text ih =>
    have behind : (escape text).head? = some c ↔ text.head? = some c := head?_escape_eq_iff h
    simp only [List.mem_cons, List.not_mem_nil, not_or, or_false] at h
    obtain ⟨-, -, -, equals, colon⟩ := h
    rw [escape_cons, Text.pair_infix_cons_iff, ← behind]
    refine Iff.trans ?_ (or_congr_right ih)
    by_cases blank : d = ' '
    · simp [blank, Text.pair_infix_cons_iff]
    · by_cases separator : d = '=' ∨ d = ':'
      · rw [escapeChar_separator separator]
        -- The backslash of an escaped separator has the separator behind it.
        rcases separator with rfl | rfl
        · simp [Text.pair_infix_cons_iff, Ne.symm equals]
        · simp [Text.pair_infix_cons_iff, Ne.symm colon]
      · rw [escapeChar_other blank separator]
        exact Text.pair_infix_cons_iff

/-- The text ends with what becomes an underscore. -/
def EndsBlank (text : List Char) : Prop :=
  text.getLast? = some ' ' ∨ text.getLast? = some '_'

theorem defect?_eq_some_iff {key : Key} {defect : Defect} :
    key.defect? = some defect ↔
      match defect with
      | .trailingSpace => EndsBlank key.text.toList
      | .embeddedNewline => ¬ EndsBlank key.text.toList ∧ ['\\', 'n'] <:+: key.text.toList := by
  rw [EndsBlank, ← getLast?_escape_eq_underscore_iff, ← pair_infix_escape_iff (by decide),
    ← Text.containsWord_iff_infix, ← toList_propertiesKey, defect?]
  by_cases last : key.propertiesKey.toList.getLast? = some '_'
  · cases defect <;> simp [last]
  · cases defect <;> simp [last]

/-! ## Keys that a resource file can hold -/

/-- A resource file can hold the stored form of the key as it is, at the start of a line: nothing in
it is an escape, nothing ends the line or the key, it opens no comment, and there is no white space
to trim. -/
structure Storable (key : Key) : Prop where
  plain : '\\' ∉ key.text.toList
  unbroken : ∀ c ∈ ['\n', '\t', '\x0c'], c ∉ key.text.toList
  noComment : ∀ c ∈ ['#', '!'], key.text.toList.head? ≠ some c
  trimmed : Text.trim key.propertiesKey.toList = key.propertiesKey.toList

/-- What ends a line or a key is in a stored form exactly if it is in the text. -/
theorem break_mem_escape_iff {c : Char} (h : c ∈ ['\n', '\t', '\x0c']) {text : List Char} :
    c ∈ escape text ↔ c ∈ text := by
  apply mem_escape_iff
  simp only [List.mem_cons, List.not_mem_nil, or_false] at h
  rcases h with rfl | rfl | rfl <;> decide

/-- What opens a comment begins a stored form exactly if it begins the text. -/
theorem head?_escape_eq_mark_iff {c : Char} (h : c ∈ ['#', '!']) {text : List Char} :
    (escape text).head? = some c ↔ text.head? = some c := by
  apply head?_escape_eq_iff
  simp only [List.mem_cons, List.not_mem_nil, or_false] at h
  rcases h with rfl | rfl <;> decide

end LocaleKeys.Key
