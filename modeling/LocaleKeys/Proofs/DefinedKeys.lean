import LocaleKeys.DefinedKeys
import LocaleKeys.Proofs.SortedMap
import Mathlib.Data.List.Induction

/-!
# What the definitions of a file define

`DefinedKeys.Describes` says what is recorded of a list of definitions: each key with the line of
the first of them that defines it, and every later one as a repetition. One further definition keeps
it (`Describes.define`), so it holds for the keys of a whole file (`describes_ofEntries`).
-/

namespace LocaleKeys

namespace Properties.Entry

/-- The stored form of the key that a definition defines. -/
def storedKey (entry : Entry) : String :=
  (Key.ofResource entry.key).propertiesKey

/-- The first definition of a key. -/
def firstOf? (key : String) (entries : List Entry) : Option Entry :=
  entries.find? (·.storedKey == key)

/-- The repetition that a definition is behind others. -/
def repetition? (before : List Entry) (entry : Entry) : Option RepeatedKey :=
  (firstOf? entry.storedKey before).map fun first => ⟨entry.storedKey, entry.line, first.line⟩

/-- The repetitions among definitions behind others. -/
def repetitions (before : List Entry) : List Entry → List RepeatedKey
  | [] => []
  | entry :: entries => (repetition? before entry).toList ++ repetitions (before ++ [entry]) entries

theorem repetitions_concat (before entries : List Entry) (entry : Entry) :
    repetitions before (entries ++ [entry]) =
      repetitions before entries ++ (repetition? (before ++ entries) entry).toList := by
  induction entries generalizing before with
  | nil => simp [repetitions]
  | cons first entries ih =>
    simp only [List.cons_append, repetitions, ih, List.append_assoc, List.nil_append]

/-- A repetition stands where its definition does. -/
theorem lines_repetitions_sublist (before entries : List Entry) :
    ((repetitions before entries).map (·.line)).Sublist (entries.map (·.line)) := by
  induction entries generalizing before with
  | nil => exact .slnil
  | cons entry entries ih =>
    have first : ((repetition? before entry).toList.map (·.line)).Sublist [entry.line] := by
      rw [repetition?]
      cases firstOf? entry.storedKey before with
      | none => exact List.nil_sublist _
      | some first => exact .refl _
    rw [repetitions, List.map_append]
    exact first.append (ih _)

theorem storedKey_of_firstOf? {key : String} {entries : List Entry} {entry : Entry}
    (h : firstOf? key entries = some entry) : entry ∈ entries ∧ entry.storedKey = key := by
  have inside := List.mem_of_find?_eq_some h
  rw [firstOf?, List.find?_eq_some_iff_append] at h
  exact ⟨inside, by simpa using h.1⟩

theorem firstOf?_eq_none_iff {key : String} {entries : List Entry} :
    firstOf? key entries = none ↔ ∀ entry ∈ entries, entry.storedKey ≠ key := by
  rw [firstOf?, List.find?_eq_none]
  simp only [beq_iff_eq, ne_eq]

theorem firstOf?_concat (key : String) (entries : List Entry) (entry : Entry) :
    firstOf? key (entries ++ [entry]) =
      (firstOf? key entries).or (if entry.storedKey = key then some entry else none) := by
  rw [firstOf?, List.find?_append, firstOf?, List.find?_singleton]
  simp only [beq_iff_eq]

end Properties.Entry

open Properties (Entry)
open Properties.Entry (firstOf? repetition? repetitions)

namespace DefinedKeys

/-- The keys are those that definitions of a file define. -/
structure Describes (defined : DefinedKeys) (file : String) (entries : List Entry) : Prop where
  file_eq : defined.file = file
  sorted : defined.lines.Sorted
  lineOf?_eq : ∀ key, defined.lineOf? key = (firstOf? key entries).map (·.line)
  repeated_eq : defined.repeated = repetitions [] entries

theorem describes_empty (file : String) : (empty file).Describes file [] :=
  ⟨rfl, SortedMap.sorted_empty, fun _ => rfl, rfl⟩

theorem define_known {defined : DefinedKeys} {entry : Entry} {firstLine : Nat}
    (h : defined.lineOf? entry.storedKey = some firstLine) :
    defined.define entry =
      { defined with
        repeated := defined.repeated ++ [⟨entry.storedKey, entry.line, firstLine⟩] } := by
  have found : defined.lines.find? (Key.ofResource entry.key).propertiesKey = some firstLine := h
  simp only [define, found]
  rfl

theorem define_new {defined : DefinedKeys} {entry : Entry}
    (h : defined.lineOf? entry.storedKey = none) :
    defined.define entry =
      { defined with lines := defined.lines.upsert entry.storedKey fun _ => entry.line } := by
  have found : defined.lines.find? (Key.ofResource entry.key).propertiesKey = none := h
  simp only [define, found]
  rfl

/-- A further definition either repeats one or defines a new key. -/
theorem Describes.define {defined : DefinedKeys} {file : String} {entries : List Entry}
    (h : defined.Describes file entries) (entry : Entry) :
    (defined.define entry).Describes file (entries ++ [entry]) := by
  have known := h.lineOf?_eq entry.storedKey
  cases first : firstOf? entry.storedKey entries with
  | some earlier =>
    rw [first] at known
    rw [define_known known]
    refine ⟨h.file_eq, h.sorted, fun key => ?_, ?_⟩
    · rw [Properties.Entry.firstOf?_concat]
      change defined.lineOf? key = _
      rw [h.lineOf?_eq]
      by_cases same : entry.storedKey = key
      · rw [← same, first]
        rfl
      · rw [if_neg same, Option.or_none]
    · rw [Properties.Entry.repetitions_concat, List.nil_append, repetition?, first, ← h.repeated_eq]
      rfl
  | none =>
    rw [first] at known
    rw [define_new known]
    refine ⟨h.file_eq, SortedMap.upsert_sorted h.sorted _ _, fun key => ?_, ?_⟩
    · rw [Properties.Entry.firstOf?_concat]
      change (defined.lines.upsert _ _).find? key = _
      by_cases same : entry.storedKey = key
      · rw [← same, SortedMap.find?_upsert_self, first, if_pos rfl]
        rfl
      · rw [SortedMap.find?_upsert_of_ne (Ne.symm same), if_neg same, Option.or_none]
        exact h.lineOf?_eq key
    · rw [Properties.Entry.repetitions_concat, List.nil_append, repetition?, first]
      exact h.repeated_eq.trans (List.append_nil _).symm

/-- The keys of a file are those that its definitions define. -/
theorem describes_ofEntries (file : String) (entries : List Entry) :
    (ofEntries file entries).Describes file entries := by
  induction entries using List.reverseRec with
  | nil => exact describes_empty file
  | append_singleton entries entry ih =>
    rw [ofEntries, List.foldl_append]
    exact ih.define entry

/-- The keys of a file that can be read are those that its definitions define. -/
theorem exists_parse {path : String} {text : List Char} {defined : DefinedKeys}
    (h : DefinedKeys.parse path text = .ok defined) :
    ∃ entries, Properties.parse text = .ok entries ∧ defined = ofEntries path entries := by
  rw [DefinedKeys.parse] at h
  cases entries : Properties.parse text with
  | error e =>
    rw [entries] at h
    cases h
  | ok entries =>
    rw [entries] at h
    cases h
    exact ⟨_, rfl, rfl⟩

end DefinedKeys

end LocaleKeys
