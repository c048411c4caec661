import Mathlib.Data.List.Nodup

/-!
# What comes of each item of a list

Items of different names each produce some results, and every result bears the name of the item
that it comes from. Then the results that bear the name of an item are those that it produces
(`filter_flatMap_of_mem`), and no others bear a name (`filter_flatMap_of_not_mem`).
-/

namespace LocaleKeys

variable {α β ν : Type} [DecidableEq ν] {items : List α} {name : α → ν} {produce : α → List β}
  {owner : β → ν}

theorem filter_flatMap_of_not_mem (owned : ∀ a ∈ items, ∀ b ∈ produce a, owner b = name a) {n : ν}
    (h : n ∉ items.map name) : (items.flatMap produce).filter (owner · = n) = [] := by
  refine List.filter_eq_nil_iff.mpr fun b inside same => h ?_
  obtain ⟨a, listed, inside⟩ := List.mem_flatMap.mp inside
  rw [← of_decide_eq_true same, owned a listed b inside]
  exact List.mem_map_of_mem listed

theorem filter_flatMap_of_mem (owned : ∀ a ∈ items, ∀ b ∈ produce a, owner b = name a)
    (different : (items.map name).Nodup) {a : α} (inside : a ∈ items) :
    (items.flatMap produce).filter (owner · = name a) = produce a := by
  obtain ⟨before, after, rfl⟩ := List.append_of_mem inside
  rw [List.map_append, List.map_cons, List.nodup_middle, List.nodup_cons, List.mem_append,
    not_or] at different
  obtain ⟨⟨front, behind⟩, -⟩ := different
  have own : (produce a).filter (owner · = name a) = produce a :=
    List.filter_eq_self.mpr fun b produced => decide_eq_true (owned a inside b produced)
  have none : (before.flatMap produce).filter (owner · = name a) = [] :=
    filter_flatMap_of_not_mem (fun a' listed => owned a' (by simp [listed])) front
  have none' : (after.flatMap produce).filter (owner · = name a) = [] :=
    filter_flatMap_of_not_mem (fun a' listed => owned a' (by simp [listed])) behind
  rw [List.flatMap_append, List.flatMap_cons, List.filter_append, List.filter_append, none, own,
    none', List.nil_append, List.append_nil]

/-- One item bears its name. -/
theorem filter_eq_singleton (different : (items.map name).Nodup) {a : α} (inside : a ∈ items) :
    items.filter (name · = name a) = [a] := by
  have own := filter_flatMap_of_mem (fun a _ b (h : b ∈ [a]) => congrArg name (List.mem_singleton.mp h))
    different inside
  rwa [List.flatMap_singleton'] at own

end LocaleKeys
