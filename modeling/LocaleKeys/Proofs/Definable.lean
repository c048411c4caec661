import LocaleKeys.Proofs.Comparison
import LocaleKeys.Proofs.Properties.Encoding

/-!
# The keys that a resource file can define

A stored form is `Definable` if it holds no space, every separator in it has a backslash directly in
front, and no white space stands at its ends. Every key that a file defines is stored like this,
because its text is trimmed and then escaped (`definable_storedKey`). The other way round, the text
of a definable key is its stored form without the backslashes in front of separators
(`escape_bare`), and a line can hold every text (`Definable.exists_parse_contains`). So there is a
file for each definable key, and none for any other key in use (`definable_iff`).
-/

namespace LocaleKeys

namespace Key

/-- Every separator has a backslash directly in front. -/
def SeparatorsEscaped (stored : List Char) : Prop :=
  ∀ before c after, stored = before ++ c :: after → c = '=' ∨ c = ':' →
    before.getLast? = some '\\'

theorem separatorsEscaped_nil : SeparatorsEscaped [] := by
  intro before c after split
  simp at split

theorem SeparatorsEscaped.append {stored stored' : List Char} (h : SeparatorsEscaped stored)
    (h' : SeparatorsEscaped stored') : SeparatorsEscaped (stored ++ stored') := by
  intro before c after split separator
  rcases List.append_eq_append_iff.mp split with ⟨front, rfl, tail⟩ | ⟨back, rfl, tail⟩
  · rw [List.getLast?_append, h' front c after tail separator]
    rfl
  · cases back with
    | nil => exact absurd (h' [] c after tail.symm separator) (by simp)
    | cons d back =>
      obtain ⟨rfl, -⟩ := List.cons.inj tail
      exact h before c back rfl separator

theorem separatorsEscaped_singleton {c : Char} (h : ¬ (c = '=' ∨ c = ':')) :
    SeparatorsEscaped [c] := by
  intro before d after split separator
  cases before with
  | nil =>
    obtain ⟨rfl, -⟩ := List.cons.inj split
    exact absurd separator h
  | cons e before => simp at split

theorem separatorsEscaped_pair (c : Char) : SeparatorsEscaped ['\\', c] := by
  intro before d after split separator
  match before with
  | [] =>
    obtain ⟨rfl, -⟩ := List.cons.inj split
    exact absurd separator (by decide)
  | [e] =>
    obtain ⟨rfl, -⟩ := List.cons.inj split
    rfl
  | e :: f :: before => simp at split

/-- The stored form of a text has its separators escaped. -/
theorem separatorsEscaped_escape (text : List Char) : SeparatorsEscaped (escape text) := by
  induction text with
  | nil => exact separatorsEscaped_nil
  | cons c text ih =>
    rw [escape_cons]
    refine .append ?_ ih
    rw [escapeChar]
    split
    · exact separatorsEscaped_singleton (by decide)
    · split
      · exact separatorsEscaped_pair c
      · next other => exact separatorsEscaped_singleton other

theorem SeparatorsEscaped.not_separator {c : Char} {stored : List Char}
    (h : SeparatorsEscaped (c :: stored)) : ¬ (c = '=' ∨ c = ':') := by
  intro separator
  have escaped := h [] c stored rfl separator
  cases escaped

/-- Behind a character that is no backslash in front of a separator, nothing changes. -/
theorem SeparatorsEscaped.tail {c : Char} {stored : List Char} (h : SeparatorsEscaped (c :: stored))
    (first : ¬ (c = '\\' ∧ (stored.head? = some '=' ∨ stored.head? = some ':'))) :
    SeparatorsEscaped stored := by
  intro before d after split separator
  subst split
  cases before with
  | nil =>
    have escaped := h [c] d after rfl separator
    exact absurd ⟨Option.some.inj escaped, separator.imp (congrArg some) (congrArg some)⟩ first
  | cons e before =>
    have escaped := h (c :: e :: before) d after rfl separator
    rwa [List.getLast?_cons_cons] at escaped

/-- Behind a separator and its backslash, nothing changes. -/
theorem SeparatorsEscaped.behind_pair {c d : Char} {stored : List Char}
    (h : SeparatorsEscaped (c :: d :: stored)) (separator : d = '=' ∨ d = ':') :
    SeparatorsEscaped stored := by
  intro before e after split separator'
  subst split
  have escaped := h (c :: d :: before) e after rfl separator'
  cases before with
  | nil =>
    obtain rfl : d = '\\' := Option.some.inj escaped
    exact absurd separator (by decide)
  | cons f before => rwa [List.getLast?_cons_cons, List.getLast?_cons_cons] at escaped

/-- A stored form is that of the text that is left without the backslashes of its separators. -/
theorem escape_bare {stored : List Char} (escaped : SeparatorsEscaped stored)
    (spaceless : ' ' ∉ stored) : escape (bare stored) = stored := by
  match stored with
  | [] => rfl
  | c :: stored =>
    rw [List.mem_cons, not_or] at spaceless
    by_cases pair : c = '\\' ∧ (stored.head? = some '=' ∨ stored.head? = some ':')
    · obtain ⟨d, behind, rfl, separator⟩ :
          ∃ d behind, stored = d :: behind ∧ (d = '=' ∨ d = ':') := by
        rcases pair.2 with head | head
        · exact ⟨_, _, (List.head?_eq_some_iff.mp head).choose_spec, .inl rfl⟩
        · exact ⟨_, _, (List.head?_eq_some_iff.mp head).choose_spec, .inr rfl⟩
      have plain : d ≠ '\\' := by
        rcases separator with rfl | rfl <;> decide
      rw [bare, if_pos pair, bare_cons_of_ne plain, escape_cons, escapeChar_separator separator,
        escape_bare (escaped.behind_pair separator) (fun space => spaceless.2 (by simp [space])),
        pair.1]
      rfl
    · rw [bare, if_neg pair, escape_cons,
        escapeChar_other (Ne.symm spaceless.1) escaped.not_separator,
        escape_bare (escaped.tail pair) spaceless.2]
      rfl
termination_by stored.length

end Key

/-- A key of this stored form can stand in a resource file: it holds no space, its separators have
backslashes in front, and it neither begins nor ends with white space. -/
structure Definable (stored : String) : Prop where
  spaceless : ' ' ∉ stored.toList
  escaped : Key.SeparatorsEscaped stored.toList
  begins : ∀ c ∈ stored.toList.head?, Text.isSpace c = false
  ends : ∀ c ∈ stored.toList.getLast?, Text.isSpace c = false

open Properties (Entry)

/-- Whatever a definition defines is definable. -/
theorem definable_storedKey (entry : Entry) : Definable entry.storedKey := by
  have stored : entry.storedKey.toList = Key.escape (Text.trim entry.key) := by
    rw [Entry.storedKey, Key.toList_propertiesKey, Key.ofResource, String.toList_ofList]
  obtain ⟨begins, ends⟩ := Text.trim_eq_self_iff.mp (Key.trim_escape (Text.trim_trim entry.key))
  rw [← stored] at begins ends
  refine ⟨?_, ?_, begins, ends⟩
  · rw [stored]
    exact Key.space_not_mem_escape _
  · rw [stored]
    exact Key.separatorsEscaped_escape _

/-- The text that a definable key is stored for has no white space at its ends. -/
theorem Definable.trim_bare {stored : String} (h : Definable stored) :
    Text.trim (Key.bare stored.toList) = Key.bare stored.toList := by
  have restored := Key.escape_bare h.escaped h.spaceless
  have spaceless : Key.underscored (Key.bare stored.toList) = Key.bare stored.toList := by
    rw [← Key.bare_escape, restored]
  rw [← spaceless, ← Key.trim_escape_eq_self_iff, restored, Text.trim_eq_self_iff]
  exact ⟨h.begins, h.ends⟩

/-- A file with a written definition of a definable key defines it. -/
theorem Definable.exists_parse_contains {stored : String} (h : Definable stored) (file : String) :
    ∃ text defined, DefinedKeys.parse file text = .ok defined ∧ defined.contains stored = true := by
  let entry : Entry := ⟨Key.bare stored.toList, [], 1⟩
  let line := Properties.definitionLine .upper (Key.bare stored.toList, [])
  have lines : Text.lines line = [(entry.key, [])].map (Properties.definitionLine .upper) :=
    Text.lines_singleton (Text.not_mem_of_unbroken (Properties.unbroken_definitionLine _ _))
      (Properties.definitionLine_ne_nil _ _)
  have read : Properties.parse line = .ok [entry] := Properties.parse_of_lines lines
  have same : entry.storedKey = stored := by
    rw [← String.toList_inj, Entry.storedKey, Key.toList_propertiesKey, Key.ofResource,
      String.toList_ofList, h.trim_bare, Key.escape_bare h.escaped h.spaceless]
  refine ⟨line, .ofEntries file [entry], by rw [DefinedKeys.parse, read]; rfl, ?_⟩
  exact (DefinedKeys.describes_ofEntries file [entry]).contains_iff.mpr ⟨entry, by simp, same⟩

/-- There is a resource file that defines a key exactly if the stored form of the key is definable.
All keys of a file that can be read are definable, so a key in use that is not is missing from every
such file. -/
theorem definable_iff (file : String) :
    (∀ stored, (∃ text defined, DefinedKeys.parse file text = .ok defined ∧
        defined.contains stored = true) ↔ Definable stored) ∧
      ∀ text defined, DefinedKeys.parse file text = .ok defined →
        (∀ stored ∈ defined.lines.keys, Definable stored) ∧
          ∀ used : UsedKeys, ∀ key ∈ used.values, ¬ Definable key.first.key.propertiesKey →
            key ∈ (Comparison.of used defined).missing := by
  have sound : ∀ text defined, DefinedKeys.parse file text = .ok defined →
      ∀ stored, defined.contains stored = true → Definable stored := by
    intro text defined parsed stored contained
    obtain ⟨entries, -, rfl⟩ := DefinedKeys.exists_parse parsed
    have describes := DefinedKeys.describes_ofEntries file entries
    obtain ⟨entry, -, rfl⟩ := describes.contains_iff.mp contained
    exact definable_storedKey entry
  refine ⟨fun stored => ⟨?_, fun h => h.exists_parse_contains file⟩, fun text defined parsed =>
    ⟨fun stored listed => ?_, fun used key inUse outside => ?_⟩⟩
  · rintro ⟨text, defined, parsed, contained⟩
    exact sound text defined parsed stored contained
  · obtain ⟨entries, -, rfl⟩ := DefinedKeys.exists_parse parsed
    have sorted := (DefinedKeys.describes_ofEntries file entries).sorted
    exact sound text _ parsed stored ((SortedMap.mem_keys_iff sorted).mp listed)
  · rw [Comparison.of, List.mem_filter, Bool.not_eq_true']
    exact ⟨inUse, Bool.eq_false_iff.mpr fun contained =>
      outside (sound text defined parsed _ contained)⟩

end LocaleKeys
