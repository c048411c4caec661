import LocaleKeys.Comparison
import LocaleKeys.Proofs.DefinedKeys
import LocaleKeys.Proofs.UsedKeys

/-!
# Missing and obsolete keys are set differences

For used keys and defined keys that are recorded as `UsedKeys.Describes` and
`DefinedKeys.Describes` say, a key is missing if a usage asks for it and no definition defines it
(`mem_missing_iff`), and obsolete the other way round (`mem_obsolete_iff`). Neither list names a key
twice.
-/

namespace LocaleKeys

open Properties (Entry)
open Properties.Entry (firstOf?)

theorem DefinedKeys.Describes.contains_iff {defined : DefinedKeys} {file : String}
    {entries : List Entry} (h : defined.Describes file entries) {key : String} :
    defined.contains key = true ↔ ∃ entry ∈ entries, entry.storedKey = key := by
  rw [contains, SortedMap.contains, ← lineOf?, h.lineOf?_eq, Option.isSome_map, firstOf?,
    List.find?_isSome]
  simp only [beq_iff_eq]

namespace Comparison

variable {used : UsedKeys} {usages : List Usage} {defined : DefinedKeys} {file : String}
  {entries : List Entry}

/-- A used key is missing if no definition defines it. -/
theorem mem_missing_iff (defines : defined.Describes file entries) {key : UsedKey} :
    key ∈ (Comparison.of used defined).missing ↔
      key ∈ used.values ∧ ∀ entry ∈ entries, entry.storedKey ≠ key.first.key.propertiesKey := by
  rw [Comparison.of, List.mem_filter, Bool.not_eq_true', Bool.eq_false_iff, Ne,
    defines.contains_iff]
  simp

/-- A stored form is that of a missing key if a usage asks for it and no definition defines it. -/
theorem mem_missing_keys_iff (asked : used.Describes usages)
    (defines : defined.Describes file entries) {key : String} :
    key ∈ (Comparison.of used defined).missing.map (·.first.key.propertiesKey) ↔
      (∃ usage ∈ usages, usage.key.propertiesKey = key) ∧ firstOf? key entries = none := by
  rw [List.mem_map, Properties.Entry.firstOf?_eq_none_iff]
  constructor
  · rintro ⟨missing, reported, rfl⟩
    obtain ⟨listed, fresh⟩ := (mem_missing_iff defines).mp reported
    exact ⟨⟨missing.first, (asked.identity_first (asked.mem_values_iff.mp listed)).1, rfl⟩, fresh⟩
  · rintro ⟨⟨usage, inside, rfl⟩, fresh⟩
    have inUse := asked.mem_keys_iff.mpr ⟨usage, inside, rfl⟩
    rw [SortedMap.mem_keys_iff asked.sorted, SortedMap.contains, Option.isSome_iff_exists] at inUse
    obtain ⟨missing, found⟩ := inUse
    have same := (asked.identity_first found).2
    have stored : missing.first.key.propertiesKey = usage.key.propertiesKey :=
      congrArg Usage.Identity.propertiesKey same
    refine ⟨missing, (mem_missing_iff defines).mpr ⟨?_, ?_⟩, stored⟩
    · rw [asked.mem_values_iff, same, found]
    · rwa [stored]

/-- Among the usages of one bundle no key is missing twice. -/
theorem nodup_missing_keys (asked : used.Describes usages) {bundle : Bundle}
    (same : ∀ usage ∈ usages, usage.bundle = bundle) :
    ((Comparison.of used defined).missing.map (·.first.key.propertiesKey)).Nodup := by
  have identities : ((Comparison.of used defined).missing.map (·.first.identity)).Nodup := by
    have keys := SortedMap.nodup_of_increasing asked.sorted
    rw [← asked.map_identity_values] at keys
    exact keys.sublist (List.filter_sublist.map _)
  have split : (Comparison.of used defined).missing.map (·.first.identity) =
      ((Comparison.of used defined).missing.map (·.first.key.propertiesKey)).map (⟨·, bundle⟩) := by
    rw [List.map_map]
    apply List.map_congr_left
    intro missing reported
    have listed := (List.mem_filter.mp reported).1
    have first := (asked.identity_first (asked.mem_values_iff.mp listed)).1
    exact congrArg (Usage.Identity.mk _) (same _ first)
  rw [split] at identities
  exact identities.of_map

/-- A key is obsolete if a definition defines it and no usage asks for it. -/
theorem mem_obsolete_iff (asked : used.Describes usages) (defines : defined.Describes file entries)
    {key : String} :
    key ∈ (Comparison.of used defined).obsolete ↔
      (∃ entry ∈ entries, entry.storedKey = key) ∧
        ∀ usage ∈ usages, usage.key.propertiesKey ≠ key := by
  have unused : (!used.keys.any fun identity => identity.propertiesKey == key) = true ↔
      ∀ usage ∈ usages, usage.key.propertiesKey ≠ key := by
    rw [Bool.not_eq_true', List.any_eq_false]
    constructor
    · intro none usage inside same
      refine none usage.identity (asked.mem_keys_iff.mpr ⟨usage, inside, rfl⟩) ?_
      exact beq_iff_eq.mpr same
    · intro none identity listed same
      obtain ⟨usage, inside, rfl⟩ := asked.mem_keys_iff.mp listed
      exact none usage inside (beq_iff_eq.mp same)
  rw [Comparison.of, List.mem_filter, SortedMap.mem_keys_iff defines.sorted, unused,
    ← defines.contains_iff]
  rfl

/-- A key is obsolete if it has a first definition and no usage asks for it. -/
theorem mem_obsolete_iff_firstOf? (asked : used.Describes usages)
    (defines : defined.Describes file entries) {key : String} :
    key ∈ (Comparison.of used defined).obsolete ↔
      (∃ first, firstOf? key entries = some first) ∧
        ¬ ∃ usage ∈ usages, usage.key.propertiesKey = key := by
  have first : (∃ entry ∈ entries, entry.storedKey = key) ↔
      ∃ first, firstOf? key entries = some first := by
    rw [← Option.isSome_iff_exists, firstOf?, List.find?_isSome]
    simp only [beq_iff_eq]
  rw [mem_obsolete_iff asked defines, first]
  apply and_congr_right
  intro _
  constructor
  · rintro unused ⟨usage, inside, same⟩
    exact unused usage inside same
  · intro unused usage inside same
    exact unused ⟨usage, inside, same⟩

theorem obsolete_sorted (defines : defined.Describes file entries) :
    (Comparison.of used defined).obsolete.Pairwise (compare · · = .lt) :=
  defines.sorted.filter _

end Comparison

end LocaleKeys
