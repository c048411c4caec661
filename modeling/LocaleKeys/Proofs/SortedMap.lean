import LocaleKeys.SortedMap
import Mathlib.Data.List.Sort

/-!
# Maps in key order are maps

`find?_upsert_self` and `find?_upsert_of_ne` say what `upsert` does to the values, whatever the
order of the list. A map that is built by `upsert` is `Sorted`; in such a map exactly the keys
listed have a value (`mem_keys_iff`), each is listed once (`nodup_of_increasing`), and the keys
alone determine their list (`keys_eq_of_mem_iff`), so the map is what its values say it is
(`eq_of_find?_eq`).
-/

namespace LocaleKeys

open Std

namespace SortedMap

variable {κ α : Type} [Ord κ]

/-- The keys are listed in increasing order. -/
def Sorted (map : SortedMap κ α) : Prop :=
  map.keys.Pairwise (compare · · = .lt)

theorem sorted_empty : (empty : SortedMap κ α).Sorted :=
  .nil

theorem keys_upsert_subset (map : SortedMap κ α) {key k : κ} {value : Option α → α}
    (h : k ∈ (map.upsert key value).keys) : k = key ∨ k ∈ map.keys := by
  obtain ⟨list⟩ := map
  simp only [keys, upsert] at h ⊢
  induction list with
  | nil => simpa [upsertIn] using h
  | cons entry rest ih =>
    rw [upsertIn] at h
    cases order : compare key entry.1 with
    | lt => simpa [order] using h
    | eq =>
      simp only [order, List.map_cons, List.mem_cons] at h ⊢
      exact .inr h
    | gt =>
      simp only [order, List.map_cons, List.mem_cons] at h ⊢
      rcases h with h | h
      · exact .inr (.inl h)
      · exact (ih h).imp_right .inr

/-- A new key makes the map larger by one. -/
theorem size_upsert_of_find?_eq_none {map : SortedMap κ α} {key : κ} (h : map.find? key = none)
    (value : Option α → α) : (map.upsert key value).size = map.size + 1 := by
  obtain ⟨list⟩ := map
  simp only [size, upsert, find?] at h ⊢
  induction list with
  | nil => rfl
  | cons entry rest ih =>
    cases order : compare key entry.1 with
    | lt => simp [upsertIn, order]
    | eq => simp [findIn?, order] at h
    | gt =>
      have absent : findIn? key rest = none := by simpa [findIn?, order] using h
      simp [upsertIn, order, ih absent]

variable [TransOrd κ]

theorem findIn?_upsertIn_self (key : κ) (value : Option α → α) (list : List (κ × α)) :
    findIn? key (upsertIn key value list) = some (value (findIn? key list)) := by
  induction list with
  | nil => simp [upsertIn, findIn?, ReflOrd.compare_self]
  | cons entry rest ih =>
    cases order : compare key entry.1 with
    | lt => simp [upsertIn, findIn?, order, ReflOrd.compare_self]
    | eq => simp [upsertIn, findIn?, order]
    | gt => simp [upsertIn, findIn?, order, ih]

/-- An updated key has its new value. -/
theorem find?_upsert_self (map : SortedMap κ α) (key : κ) (value : Option α → α) :
    (map.upsert key value).find? key = some (value (map.find? key)) :=
  findIn?_upsertIn_self key value map.toList

theorem upsert_sorted {map : SortedMap κ α} (h : map.Sorted) (key : κ)
    (value : Option α → α) : (map.upsert key value).Sorted := by
  obtain ⟨list⟩ := map
  induction list with
  | nil => exact List.pairwise_singleton _ _
  | cons entry rest ih =>
    obtain ⟨first, others⟩ := List.pairwise_cons.mp h
    cases order : compare key entry.1 with
    | lt =>
      have before : ∀ k ∈ entry.1 :: rest.map (·.1), compare key k = .lt := by
        intro k hk
        rcases List.mem_cons.mp hk with rfl | hk
        · exact order
        · exact TransCmp.lt_trans order (first k hk)
      simpa [Sorted, keys, upsert, upsertIn, order] using List.pairwise_cons.mpr ⟨before, h⟩
    | eq => simpa [Sorted, keys, upsert, upsertIn, order] using h
    | gt =>
      have tail := ih others
      have inside : ∀ k ∈ (upsertIn key value rest).map (·.1), compare entry.1 k = .lt := by
        intro k hk
        rcases keys_upsert_subset ⟨rest⟩ hk with rfl | hk
        · exact OrientedCmp.lt_of_gt order
        · exact first k hk
      simpa [Sorted, keys, upsert, upsertIn, order] using List.pairwise_cons.mpr ⟨inside, tail⟩

/-- An increasing list names no key twice. -/
theorem nodup_of_increasing {list : List κ} (h : list.Pairwise (compare · · = .lt)) :
    list.Nodup := by
  apply h.imp
  rintro a b order rfl
  simp [ReflOrd.compare_self] at order

/-- Lists of the same items in increasing order of their keys are equal. -/
theorem eq_of_increasing {β : Type} (key : β → κ) {list list' : List β}
    (h : list.Pairwise fun a b => compare (key a) (key b) = .lt)
    (h' : list'.Pairwise fun a b => compare (key a) (key b) = .lt)
    (same : ∀ item, item ∈ list ↔ item ∈ list') : list = list' := by
  have irrefl : Std.Irrefl fun a b : β => compare (key a) (key b) = .lt :=
    ⟨fun a order => by simp [ReflOrd.compare_self] at order⟩
  have antisymm : Std.Antisymm fun a b : β => compare (key a) (key b) = .lt :=
    ⟨fun a b order order' => by simp [OrientedCmp.gt_of_lt order'] at order⟩
  exact h.eq_of_mem_iff h' same

/-- Increasing lists of the same keys are equal. -/
theorem keys_eq_of_mem_iff {list list' : List κ} (h : list.Pairwise (compare · · = .lt))
    (h' : list'.Pairwise (compare · · = .lt)) (same : ∀ key, key ∈ list ↔ key ∈ list') :
    list = list' :=
  eq_of_increasing id h h' same

variable [LawfulEqOrd κ]

theorem findIn?_upsertIn_of_ne {key k : κ} (h : k ≠ key) (value : Option α → α)
    (list : List (κ × α)) : findIn? k (upsertIn key value list) = findIn? k list := by
  have other : compare k key ≠ .eq := fun same => h (LawfulEqCmp.eq_of_compare same)
  induction list with
  | nil =>
    cases order : compare k key with
    | lt => simp [upsertIn, findIn?, order]
    | eq => exact absurd order other
    | gt => simp [upsertIn, findIn?, order]
  | cons entry rest ih =>
    obtain ⟨k', b⟩ := entry
    cases place : compare key k' with
    | lt =>
      cases order : compare k key with
      | lt => simp [upsertIn, findIn?, place, order, TransCmp.lt_trans order place]
      | eq => exact absurd order other
      | gt => simp [upsertIn, findIn?, place, order]
    | eq =>
      obtain rfl := LawfulEqCmp.eq_of_compare place
      cases order : compare k key with
      | lt => simp [upsertIn, findIn?, order]
      | eq => exact absurd order other
      | gt => simp [upsertIn, findIn?, order]
    | gt => simp [upsertIn, findIn?, place, ih]

/-- Every other key keeps its value. -/
theorem find?_upsert_of_ne {key k : κ} (h : k ≠ key) (map : SortedMap κ α)
    (value : Option α → α) : (map.upsert key value).find? k = map.find? k :=
  findIn?_upsertIn_of_ne h value map.toList

/-- In a sorted map a key and its value are listed together. -/
theorem mem_toList_iff {map : SortedMap κ α} (h : map.Sorted) {key : κ} {a : α} :
    (key, a) ∈ map.toList ↔ map.find? key = some a := by
  obtain ⟨list⟩ := map
  induction list with
  | nil => simp [find?, findIn?]
  | cons entry rest ih =>
    obtain ⟨k, b⟩ := entry
    obtain ⟨first, others⟩ := List.pairwise_cons.mp h
    have later : ∀ {c}, (key, c) ∈ rest → compare k key = .lt :=
      fun listed => first _ (List.mem_map_of_mem listed)
    have tail : (key, a) ∈ rest ↔ findIn? key rest = some a := ih others
    change (key, a) ∈ (k, b) :: rest ↔ findIn? key ((k, b) :: rest) = some a
    rw [List.mem_cons, findIn?]
    cases order : compare key k with
    | lt =>
      refine iff_of_false ?_ nofun
      rintro (same | listed)
      · simp [Prod.mk.inj same |>.1, ReflOrd.compare_self] at order
      · simp [OrientedCmp.gt_of_lt (later listed)] at order
    | eq =>
      rw [LawfulEqCmp.eq_of_compare order] at later ⊢
      have absent : (k, a) ∉ rest := fun listed => by
        simpa [ReflOrd.compare_self] using later listed
      simp [absent, eq_comm]
    | gt =>
      have other : key ≠ k := by
        rintro rfl
        simp [ReflOrd.compare_self] at order
      simpa [other] using tail

/-- In a sorted map the keys that are listed are those that have a value. -/
theorem mem_keys_iff {map : SortedMap κ α} (h : map.Sorted) {key : κ} :
    key ∈ map.keys ↔ map.contains key = true := by
  rw [keys, List.mem_map, contains, Option.isSome_iff_exists]
  constructor
  · rintro ⟨⟨k, a⟩, listed, rfl⟩
    exact ⟨a, (mem_toList_iff h).mp listed⟩
  · rintro ⟨a, found⟩
    exact ⟨(key, a), (mem_toList_iff h).mpr found, rfl⟩

/-- Maps in key order are equal if they have the same values. -/
theorem eq_of_find?_eq {map map' : SortedMap κ α} (h : map.Sorted) (h' : map'.Sorted)
    (same : ∀ key, map.find? key = map'.find? key) : map = map' := by
  have listed : map.toList = map'.toList := by
    refine eq_of_increasing Prod.fst (List.pairwise_map.mp h) (List.pairwise_map.mp h')
      fun entry => ?_
    rw [mem_toList_iff h, mem_toList_iff h', same]
  cases map
  cases map'
  exact congrArg _ listed

end SortedMap

end LocaleKeys
