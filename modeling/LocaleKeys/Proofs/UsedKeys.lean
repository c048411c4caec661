import LocaleKeys.Proofs.Shares
import LocaleKeys.Proofs.SortedMap
import LocaleKeys.UsedKeys
import Mathlib.Data.List.Induction

/-!
# What usages put in use

`UsedKeys.Describes` says what is recorded of a list of usages: for each key of each bundle the
first usage of it, and the locations of the others in order. One further usage keeps it
(`Describes.insert`), so it holds after any number of them (`describes_insertAll`). A key is then
located wherever it is used, in the order of its usages (`Describes.locations_eq`). So the used keys
are the list of usages put in the order of keys, without any location lost or told twice
(`insertAll_lists`).
-/

namespace LocaleKeys

open Std

/-! ## The order of keys -/

instance : TransOrd Bundle :=
  inferInstanceAs (TransCmp (compareOn Bundle.rank))

instance : LawfulEqOrd Bundle where
  eq_of_compare {a b} h := by
    cases a <;> cases b <;> first | rfl | exact absurd h (by decide)

open Usage.Identity in
instance : TransOrd Usage.Identity :=
  inferInstanceAs (TransCmp (compareLex (compareOn propertiesKey) (compareOn bundle)))

instance : LawfulEqOrd Usage.Identity where
  eq_of_compare {a b} h := by
    obtain ⟨key, bundle⟩ := Ordering.then_eq_eq.mp h
    cases a
    cases b
    congr
    · exact LawfulEqCmp.eq_of_compare key
    · exact LawfulEqCmp.eq_of_compare bundle

/-! ## Usages of a key -/

/-- The used key of usages of one key. -/
def UsedKey.ofUsages? : List Usage → Option UsedKey
  | [] => none
  | first :: others => some ⟨first, others.map (·.location)⟩

theorem UsedKey.ofUsages?_concat (usages : List Usage) (usage : Usage) :
    ofUsages? (usages ++ [usage]) = some (withUsage usage (ofUsages? usages)) := by
  cases usages with
  | nil => rfl
  | cons first others => simp [ofUsages?, withUsage]

namespace UsedKeys

/-- The used keys are those that usages ask for. -/
structure Describes (used : UsedKeys) (usages : List Usage) : Prop where
  sorted : used.Sorted
  find?_eq : ∀ identity,
    used.find? identity = UsedKey.ofUsages? (usages.filter (·.identity = identity))

theorem describes_empty : Describes .empty [] :=
  ⟨SortedMap.sorted_empty, fun _ => rfl⟩

/-- A further usage either is the first of its key or comes to the others. -/
theorem Describes.insert {used : UsedKeys} {usages : List Usage} (h : used.Describes usages)
    (usage : Usage) : (used.insert usage).Describes (usages ++ [usage]) := by
  refine ⟨SortedMap.upsert_sorted h.sorted _ _, fun identity => ?_⟩
  rw [UsedKeys.insert, List.filter_append]
  by_cases same : usage.identity = identity
  · subst same
    rw [SortedMap.find?_upsert_self, h.find?_eq, List.filter_cons_of_pos (by simp),
      List.filter_nil, UsedKey.ofUsages?_concat]
  · rw [SortedMap.find?_upsert_of_ne (Ne.symm same), h.find?_eq,
      List.filter_cons_of_neg (by simpa using same), List.filter_nil, List.append_nil]

theorem Describes.insertAll {used : UsedKeys} {usages : List Usage} (h : used.Describes usages)
    (more : List Usage) : (used.insertAll more).Describes (usages ++ more) := by
  induction more using List.reverseRec with
  | nil => simpa [UsedKeys.insertAll] using h
  | append_singleton more usage ih =>
    rw [UsedKeys.insertAll, List.foldl_append, ← List.append_assoc]
    exact ih.insert usage

/-- The used keys of a list of usages are those that they ask for. -/
theorem describes_insertAll (usages : List Usage) : (insertAll .empty usages).Describes usages :=
  describes_empty.insertAll usages

/-- A usage stands for a key of its own. -/
theorem Describes.identity_first {used : UsedKeys} {usages : List Usage} (h : used.Describes usages)
    {identity : Usage.Identity} {key : UsedKey} (found : used.find? identity = some key) :
    key.first ∈ usages ∧ key.first.identity = identity := by
  rw [h.find?_eq] at found
  cases usagesOf : usages.filter (·.identity = identity) with
  | nil =>
    rw [usagesOf] at found
    cases found
  | cons first others =>
    rw [usagesOf] at found
    cases found
    have inside : first ∈ usages.filter (·.identity = identity) := by simp [usagesOf]
    simpa using inside

/-- The keys in use are those that some usage asks for. -/
theorem Describes.mem_keys_iff {used : UsedKeys} {usages : List Usage} (h : used.Describes usages)
    {identity : Usage.Identity} :
    identity ∈ used.keys ↔ ∃ usage ∈ usages, usage.identity = identity := by
  rw [SortedMap.mem_keys_iff h.sorted, SortedMap.contains, Option.isSome_iff_exists]
  constructor
  · rintro ⟨key, found⟩
    exact ⟨key.first, h.identity_first found⟩
  · rintro ⟨usage, inside, same⟩
    rw [h.find?_eq]
    cases usagesOf : usages.filter (·.identity = identity) with
    | nil =>
      rw [List.filter_eq_nil_iff] at usagesOf
      exact absurd (by simpa using same) (usagesOf usage inside)
    | cons first others => exact ⟨_, rfl⟩

/-- A used key is found under the identity of its first usage. -/
theorem Describes.mem_values_iff {used : UsedKeys} {usages : List Usage} (h : used.Describes usages)
    {key : UsedKey} : key ∈ used.values ↔ used.find? key.first.identity = some key := by
  rw [SortedMap.values, List.mem_map]
  constructor
  · rintro ⟨⟨identity, key⟩, listed, rfl⟩
    have found := (SortedMap.mem_toList_iff h.sorted).mp listed
    rwa [(h.identity_first found).2]
  · intro found
    exact ⟨(key.first.identity, key), (SortedMap.mem_toList_iff h.sorted).mpr found, rfl⟩

/-- The keys are the identities of their first usages. -/
theorem Describes.map_identity_values {used : UsedKeys} {usages : List Usage}
    (h : used.Describes usages) : used.values.map (·.first.identity) = used.keys := by
  rw [SortedMap.values, SortedMap.keys, List.map_map]
  apply List.map_congr_left
  intro entry listed
  exact (h.identity_first ((SortedMap.mem_toList_iff h.sorted).mp listed)).2

/-- The usages that stand for keys are among the usages. -/
theorem Describes.mem_of_mem_firsts {used : UsedKeys} {usages : List Usage}
    (h : used.Describes usages) {usage : Usage} (inside : usage ∈ used.firsts) : usage ∈ usages := by
  obtain ⟨key, listed, rfl⟩ := List.mem_map.mp inside
  exact (h.identity_first (h.mem_values_iff.mp listed)).1

/-- The locations of a key of a bundle: that of the usage that stands for it, and those of the
others. -/
def locations (used : UsedKeys) (identity : Usage.Identity) : List Location :=
  (used.firsts.filter (·.identity = identity)).map (·.location) ++ used.otherLocations identity

/-- The first usage of a key stands for it. -/
theorem Describes.filter_firsts {used : UsedKeys} {usages : List Usage} (h : used.Describes usages)
    (identity : Usage.Identity) :
    used.firsts.filter (·.identity = identity) =
      (usages.filter (·.identity = identity)).head?.toList := by
  have first : (used.find? identity).map (·.first) =
      (usages.filter (·.identity = identity)).head? := by
    rw [h.find?_eq]
    cases usages.filter (·.identity = identity) <;> rfl
  rw [firsts, List.filter_map, ← first]
  cases found : used.find? identity with
  | none =>
    have none : used.values.filter ((·.identity = identity) ∘ (·.first)) = [] := by
      refine List.filter_eq_nil_iff.mpr fun key listed same => ?_
      rw [h.mem_values_iff, of_decide_eq_true same, found] at listed
      cases listed
    rw [none]
    rfl
  | some key =>
    obtain ⟨-, rfl⟩ := h.identity_first found
    have single : used.values.filter (·.first.identity = key.first.identity) = [key] := by
      refine filter_eq_singleton ?_ (h.mem_values_iff.mpr found)
      rw [h.map_identity_values]
      exact SortedMap.nodup_of_increasing h.sorted
    exact congrArg _ single

/-- A key is located wherever it is used, in the order of its usages. -/
theorem Describes.locations_eq {used : UsedKeys} {usages : List Usage} (h : used.Describes usages)
    (identity : Usage.Identity) :
    used.locations identity = (usages.filter (·.identity = identity)).map (·.location) := by
  rw [locations, h.filter_firsts, otherLocations, h.find?_eq]
  cases usages.filter (·.identity = identity) with
  | nil => rfl
  | cons first others => rfl

end UsedKeys

/-! ## The list of usages -/

/-- The usage comes before another one: its key has the smaller stored form, or it asks for the same
key of the first bundle and the other one for that of the second. -/
def Usage.Precedes (a b : Usage) : Prop :=
  a.key.propertiesKey < b.key.propertiesKey ∨
    a.key.propertiesKey = b.key.propertiesKey ∧ a.bundle = .lang ∧ b.bundle = .menu

theorem Bundle.compare_eq_lt_iff {a b : Bundle} : compare a b = .lt ↔ a = .lang ∧ b = .menu := by
  cases a <;> cases b <;> decide

theorem Usage.precedes_of_compare {a b : Usage} (h : compare a.identity b.identity = .lt) :
    a.Precedes b := by
  rcases Ordering.then_eq_lt.mp h with key | ⟨key, bundle⟩
  · exact .inl (compareOfLessAndEq_eq_lt.mp key)
  · exact .inr ⟨LawfulEqCmp.eq_of_compare key, Bundle.compare_eq_lt_iff.mp bundle⟩

/-- All locations of a used key. -/
def UsedKey.locations (used : UsedKey) : List Location :=
  used.first.location :: used.others

theorem UsedKey.locations_withUsage (usage : Usage) (known : Option UsedKey) :
    (withUsage usage known).locations =
      (known.map locations).getD [] ++ [usage.location] := by
  cases known <;> rfl

namespace UsedKeys

/-- A further usage adds its location to those that are there. -/
theorem locations_insert_perm (used : UsedKeys) (usage : Usage) :
    ((used.insert usage).values.flatMap UsedKey.locations).Perm
      (used.values.flatMap UsedKey.locations ++ [usage.location]) := by
  obtain ⟨list⟩ := used
  simp only [UsedKeys.insert, SortedMap.upsert, SortedMap.values]
  induction list with
  | nil => exact .refl _
  | cons entry rest ih =>
    rw [SortedMap.upsertIn]
    cases compare usage.identity entry.1 with
    | lt =>
      simp only [List.map_cons, List.flatMap_cons]
      exact List.perm_append_comm
    | eq =>
      simp only [List.map_cons, List.flatMap_cons, UsedKey.locations_withUsage, Option.map_some,
        Option.getD_some, List.append_assoc]
      exact List.perm_append_comm.append_left _
    | gt =>
      simp only [List.map_cons, List.flatMap_cons, List.append_assoc]
      exact ih.append_left _

theorem locations_insertAll_perm (usages : List Usage) :
    ((insertAll .empty usages).values.flatMap UsedKey.locations).Perm
      (usages.map (·.location)) := by
  induction usages using List.reverseRec with
  | nil => exact .refl _
  | append_singleton usages usage ih =>
    rw [insertAll, List.foldl_append, List.map_append]
    exact (locations_insert_perm _ usage).trans (ih.append_right _)

/-- The used keys are the list of usages, put in the order of keys. -/
structure Lists (used : UsedKeys) (usages : List Usage) : Prop where
  increasing : used.firsts.Pairwise Usage.Precedes
  firsts_eq : ∀ identity, used.firsts.filter (·.identity = identity) =
    (usages.filter (·.identity = identity)).head?.toList
  others_eq : ∀ usage : Usage, used.otherLocations usage.identity =
    (usages.filter (·.identity = usage.identity)).tail.map (·.location)
  locations_perm : (used.firsts.flatMap fun first =>
    first.location :: used.otherLocations first.identity).Perm (usages.map (·.location))

theorem Describes.flatMap_locations {used : UsedKeys} {usages : List Usage}
    (h : used.Describes usages) :
    (used.firsts.flatMap fun first => first.location :: used.otherLocations first.identity) =
      used.values.flatMap UsedKey.locations := by
  rw [firsts, List.flatMap_map]
  refine List.flatMap_congr fun key listed => ?_
  rw [otherLocations, h.mem_values_iff.mp listed]
  rfl

theorem Describes.otherLocations_eq {used : UsedKeys} {usages : List Usage}
    (h : used.Describes usages) (identity : Usage.Identity) :
    used.otherLocations identity =
      (usages.filter (·.identity = identity)).tail.map (·.location) := by
  rw [otherLocations, h.find?_eq]
  cases usages.filter (·.identity = identity) <;> rfl

theorem Describes.increasing_firsts {used : UsedKeys} {usages : List Usage}
    (h : used.Describes usages) : used.firsts.Pairwise Usage.Precedes := by
  have sorted := h.sorted
  rw [SortedMap.Sorted, ← h.map_identity_values, List.pairwise_map] at sorted
  rw [firsts, List.pairwise_map]
  exact sorted.imp Usage.precedes_of_compare

/-- Usages that are the same for each key of each bundle put the same keys in use. -/
theorem insertAll_lists (usages : List Usage) :
    (insertAll .empty usages).Lists usages ∧
      ∀ usages' : List Usage, (∀ identity, usages'.filter (·.identity = identity) =
          usages.filter (·.identity = identity)) →
        insertAll .empty usages' = insertAll .empty usages := by
  have describes := describes_insertAll usages
  refine ⟨⟨describes.increasing_firsts, describes.filter_firsts,
    fun usage => describes.otherLocations_eq usage.identity, ?_⟩, fun usages' same => ?_⟩
  · rw [describes.flatMap_locations]
    exact locations_insertAll_perm usages
  · have describes' := describes_insertAll usages'
    refine SortedMap.eq_of_find?_eq describes'.sorted describes.sorted fun identity => ?_
    rw [describes'.find?_eq, describes.find?_eq, same]

end UsedKeys

end LocaleKeys
