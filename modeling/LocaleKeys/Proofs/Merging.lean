import Mathlib.Data.List.Sort

/-!
# Merging sorted lists

Sorting a list is inserting its items one by one (`mergeSort_cons_eq`), and inserting an item into
the merge of two lists is inserting it into the first of them (`merge_orderedInsert`). So two lists
can be sorted on their own and merged afterwards (`mergeSort_append`), whether or not the order
tells all items apart.
-/

namespace LocaleKeys

variable {α : Type} {before : α → α → Bool}

/-- An item goes in front of the first item that it is before. -/
theorem orderedInsert_append_cons {a : α} {front behind : List α}
    (later : ∀ b ∈ front, before a b = false) (ahead : ∀ b ∈ behind, before a b = true) :
    (front ++ behind).orderedInsert (before · ·) a = front ++ a :: behind := by
  induction front with
  | nil =>
    cases behind with
    | nil => rfl
    | cons b behind => exact List.orderedInsert_cons_of_le _ _ (ahead b List.mem_cons_self)
  | cons b front ih =>
    rw [List.forall_mem_cons] at later
    rw [List.cons_append, List.orderedInsert_cons, if_neg (by simp [later.1]), ih later.2,
      List.cons_append]

variable (trans : ∀ a b c, before a b = true → before b c = true → before a c = true)
  (total : ∀ a b, (before a b || before b a) = true)

include trans total

/-- The first item of a list can be put in its place after the others are sorted. -/
theorem mergeSort_cons_eq (a : α) (items : List α) :
    (a :: items).mergeSort before = (items.mergeSort before).orderedInsert (before · ·) a := by
  obtain ⟨front, behind, whole, rest, later⟩ := List.mergeSort_cons trans total a items
  have sorted := List.pairwise_mergeSort trans total (a :: items)
  rw [whole, List.pairwise_append, List.pairwise_cons] at sorted
  rw [whole, rest]
  refine (orderedInsert_append_cons (fun b inside => ?_) sorted.2.1.1).symm
  simpa using later b inside

/-- An item can be put in its place before or after its list is merged with another one. -/
theorem merge_orderedInsert (a : α) (left right : List α) :
    (left.orderedInsert (before · ·) a).merge right before =
      (left.merge right before).orderedInsert (before · ·) a := by
  induction left generalizing right with
  | nil =>
    induction right with
    | nil => simp only [List.merge_right]
    | cons r right ih =>
      rw [List.nil_merge, List.orderedInsert_cons]
      by_cases first : before a r = true
      · rw [if_pos first, List.orderedInsert_nil, List.cons_merge_cons_pos _ _ _ first,
          List.nil_merge]
      · rw [if_neg first, List.orderedInsert_nil, List.cons_merge_cons_neg _ _ _ first]
        rw [List.orderedInsert_nil, List.nil_merge] at ih
        rw [ih]
  | cons l left ihl =>
    induction right with
    | nil => simp only [List.merge_right]
    | cons r right ihr =>
      rw [List.orderedInsert_cons] at ihr ⊢
      by_cases front : before a l = true
      · -- The item is the first of its list, so the merge begins with it or with `r`.
        rw [if_pos front] at ihr ⊢
        by_cases first : before a r = true
        · rw [List.cons_merge_cons_pos _ _ _ first]
          by_cases order : before l r = true
          · rw [List.cons_merge_cons_pos _ _ _ order, List.orderedInsert_cons, if_pos front]
          · rw [List.cons_merge_cons_neg _ _ _ order, List.orderedInsert_cons, if_pos first]
        · have other : ¬ before l r = true := fun order => first (trans a l r front order)
          rw [List.cons_merge_cons_neg _ _ _ first, List.cons_merge_cons_neg _ _ _ other,
            List.orderedInsert_cons, if_neg first, ihr]
      · rw [if_neg front] at ihr ⊢
        by_cases order : before l r = true
        · rw [List.cons_merge_cons_pos _ _ _ order, List.cons_merge_cons_pos _ _ _ order,
            List.orderedInsert_cons, if_neg front, ihl]
        · have first : ¬ before a r = true := by
            intro first
            have back := total l r
            simp only [order, Bool.false_or] at back
            exact front (trans a r l first back)
          rw [List.cons_merge_cons_neg _ _ _ order, List.cons_merge_cons_neg _ _ _ order,
            List.orderedInsert_cons, if_neg first, ihr]

/-- Two lists can be sorted on their own and merged afterwards. -/
theorem mergeSort_append (left right : List α) :
    (left ++ right).mergeSort before =
      (left.mergeSort before).merge (right.mergeSort before) before := by
  induction left with
  | nil => rw [List.nil_append, List.mergeSort_nil, List.nil_merge]
  | cons a left ih =>
    rw [List.cons_append, mergeSort_cons_eq trans total, mergeSort_cons_eq trans total, ih,
      merge_orderedInsert trans total]

end LocaleKeys
