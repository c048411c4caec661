import LocaleKeys.Files.Selection

/-!
# Sorted lists without repetitions

In a sorted list equal items stand next to each other, so erasing repetitions leaves a list that is
strictly increasing (`increasing_eraseReps`). This makes the lists of selected files lists of
different files, in the order of their texts.
-/

namespace LocaleKeys

open Std

section

variable {α : Type} [BEq α]

theorem eraseRepsBy_loop (a : α) (items done : List α) :
    List.eraseRepsBy.loop (· == ·) a items done =
      done.reverse ++ List.eraseRepsBy.loop (· == ·) a items [] := by
  induction items generalizing a done with
  | nil => simp only [List.eraseRepsBy.loop, List.reverse_cons, List.reverse_nil, List.nil_append]
  | cons b items ih =>
    simp only [List.eraseRepsBy.loop]
    cases a == b with
    | true => exact ih a done
    | false =>
      simp only
      rw [ih b (a :: done), ih b [a], List.reverse_cons, List.append_assoc]
      rfl

theorem eraseReps_cons_cons (a b : α) (items : List α) :
    (a :: b :: items).eraseReps =
      if a == b then (a :: items).eraseReps else a :: (b :: items).eraseReps := by
  simp only [List.eraseReps, List.eraseRepsBy, List.eraseRepsBy.loop]
  cases a == b with
  | true => rfl
  | false => exact eraseRepsBy_loop b items [a]

variable [LawfulBEq α]

theorem mem_eraseReps {a : α} {items : List α} : a ∈ items.eraseReps ↔ a ∈ items := by
  induction items with
  | nil => exact Iff.rfl
  | cons b items ih =>
    cases items with
    | nil => exact Iff.rfl
    | cons c items =>
      rw [eraseReps_cons_cons]
      cases same : b == c with
      | true =>
        obtain rfl := eq_of_beq same
        rw [if_pos rfl, ih]
        simp
      | false =>
        rw [if_neg Bool.false_ne_true, List.mem_cons, ih]
        simp

/-- To sort a list and to erase its repetitions keeps its members. -/
theorem mem_eraseReps_mergeSort {before : α → α → Bool} {a : α} {items : List α} :
    a ∈ (items.mergeSort before).eraseReps ↔ a ∈ items := by
  rw [mem_eraseReps]
  exact (List.mergeSort_perm items before).mem_iff

/-- A sorted list is strictly increasing after its repetitions are erased. -/
theorem increasing_eraseReps {cmp : α → α → Ordering} [TransCmp cmp] [LawfulEqCmp cmp]
    {items : List α} (h : items.Pairwise fun a b => (cmp a b).isLE = true) :
    items.eraseReps.Pairwise (cmp · · = .lt) := by
  induction items with
  | nil => exact .nil
  | cons a items ih =>
    cases items with
    | nil => exact List.pairwise_singleton _ _
    | cons b items =>
      obtain ⟨first, others⟩ := List.pairwise_cons.mp h
      rw [eraseReps_cons_cons]
      cases same : a == b with
      | true =>
        obtain rfl := eq_of_beq same
        exact ih others
      | false =>
        rw [if_neg Bool.false_ne_true, List.pairwise_cons]
        have next : cmp a b = .lt := by
          rcases Ordering.isLE_iff_eq_lt_or_eq_eq.mp (first b List.mem_cons_self) with next | equal
          · exact next
          · rw [LawfulEqCmp.eq_of_compare equal, beq_self_eq_true] at same
            cases same
        refine ⟨fun c inside => ?_, ih others⟩
        rcases List.mem_cons.mp (mem_eraseReps.mp inside) with rfl | inside
        · exact next
        · exact TransCmp.lt_of_lt_of_isLE next ((List.pairwise_cons.mp others).1 c inside)

end

section

variable {α : Type} {cmp : α → α → Ordering}

theorem isLE_total [OrientedCmp cmp] (a b : α) : ((cmp a b).isLE || (cmp b a).isLE) = true := by
  rw [(OrientedCmp.eq_swap : cmp b a = _)]
  cases cmp a b <;> rfl

theorem sorted_mergeSort [TransCmp cmp] (items : List α) :
    (items.mergeSort fun a b => (cmp a b).isLE).Pairwise fun a b => (cmp a b).isLE = true :=
  List.pairwise_mergeSort (fun _ _ _ => TransCmp.isLE_trans) isLE_total items

end

/-! ## Selected files -/

theorem Path.toText_injective {a b : Path} (h : a.toText = b.toText) : a = b := by
  have texts := congrArg String.toList h
  rw [toText, toText, String.toList_ofList, String.toList_ofList] at texts
  cases a
  cases b
  exact congrArg _ texts

instance : LawfulEqCmp (compareOn Path.toText) where
  eq_of_compare order := Path.toText_injective (LawfulEqCmp.eq_of_compare order)

/-- The selected files are listed in the order of their texts. -/
theorem Path.increasing_sorted (paths : List Path) :
    (Path.sorted paths).Pairwise fun a b => compare a.toText b.toText = .lt := by
  have sorted : (paths.mergeSort before).Pairwise fun a b => (compareOn toText a b).isLE = true :=
    sorted_mergeSort paths
  have increasing : (Path.sorted paths).Pairwise (compareOn toText · · = .lt) :=
    increasing_eraseReps sorted
  exact increasing

/-- The selected files are listed each once. -/
theorem Path.nodup_sorted (paths : List Path) : (Path.sorted paths).Nodup := by
  refine (increasing_sorted paths).imp fun order same => ?_
  rw [same, ReflOrd.compare_self] at order
  cases order

theorem Path.mem_sorted {paths : List Path} {path : Path} :
    path ∈ Path.sorted paths ↔ path ∈ paths :=
  mem_eraseReps_mergeSort

/-- No file is a source file and a markup file. -/
theorem Selection.not_mem_markup {selection : Selection} {tree : FileTree} {path : Path}
    (h : path ∈ (selection.select tree).sources) : path ∉ (selection.select tree).markup := by
  have source : selection.isSource path = true :=
    (List.mem_filter.mp (Path.mem_sorted.mp h)).2
  intro inside
  have markup : selection.isMarkup path = true :=
    (List.mem_filter.mp (Path.mem_sorted.mp inside)).2
  simp [isMarkup, source] at markup

end LocaleKeys
