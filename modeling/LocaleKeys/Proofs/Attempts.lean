import Mathlib.Data.List.Forall2

/-!
# Lists of attempts

An attempt at every item of a list succeeds if each of them does, and its results are theirs
(`mapM_eq_ok_iff`); it fails if one of them does (`exists_mapM_eq_error_iff`), as the first of these
does (`mapM_eq_error_iff`).
-/

namespace LocaleKeys

variable {ε α β : Type} {f : α → Except ε β}

theorem mapM_eq_ok_iff {items : List α} {results : List β} :
    items.mapM f = .ok results ↔ List.Forall₂ (fun item result => f item = .ok result) items results
    := by
  induction items generalizing results with
  | nil =>
    rw [List.forall₂_nil_left_iff, List.mapM_nil]
    exact ⟨fun h => (Except.ok.inj h).symm, fun h => congrArg _ h.symm⟩
  | cons item items ih =>
    rw [List.mapM_cons, List.forall₂_cons_left_iff]
    cases first : f item with
    | error e => simp [bind, Except.bind]
    | ok result =>
      cases others : items.mapM f with
      | error e =>
        refine iff_of_false nofun ?_
        rintro ⟨_, rest, -, tail, -⟩
        rw [ih.mpr tail] at others
        cases others
      | ok rest =>
        constructor
        · intro h
          cases h
          exact ⟨result, rest, rfl, ih.mp others, rfl⟩
        · rintro ⟨result', rest', same, tail, rfl⟩
          rw [ih.mpr tail] at others
          cases same
          cases others
          rfl

theorem exists_mapM_eq_error_iff {items : List α} :
    (∃ e, items.mapM f = .error e) ↔ ∃ item ∈ items, ∃ e, f item = .error e := by
  induction items with
  | nil => simp [pure, Except.pure]
  | cons item items ih =>
    rw [List.exists_mem_cons_iff, ← ih, List.mapM_cons]
    cases first : f item with
    | error e => simp [bind, Except.bind]
    | ok result =>
      cases others : items.mapM f with
      | error e => simp [bind, Except.bind]
      | ok rest => simp [bind, Except.bind, pure, Except.pure]

theorem exists_mapM_eq_ok_iff {items : List α} :
    (∃ results, items.mapM f = .ok results) ↔ ∀ item ∈ items, ∃ result, f item = .ok result := by
  have attempt : ∀ item, (∃ result, f item = .ok result) ↔ ¬ ∃ e, f item = .error e := by
    intro item
    cases f item <;> simp
  have whole : (∃ results, items.mapM f = .ok results) ↔ ¬ ∃ e, items.mapM f = .error e := by
    cases items.mapM f <;> simp
  rw [whole, exists_mapM_eq_error_iff]
  simp only [attempt, not_exists, not_and]

/-- The first attempt that fails is the one that is reported. -/
theorem mapM_eq_error_iff {items : List α} {e : ε} :
    items.mapM f = .error e ↔ ∃ before item after, items = before ++ item :: after ∧
      (∀ earlier ∈ before, ∃ result, f earlier = .ok result) ∧ f item = .error e := by
  induction items with
  | nil =>
    rw [List.mapM_nil]
    exact iff_of_false nofun (by simp)
  | cons item items ih =>
    rw [List.mapM_cons]
    cases first : f item with
    | error e' =>
      constructor
      · intro h
        cases h
        exact ⟨[], item, items, rfl, nofun, first⟩
      · rintro ⟨before, other, after, split, sound, failed⟩
        cases before with
        | nil =>
          cases split
          cases first.symm.trans failed
          rfl
        | cons earlier before =>
          cases split
          obtain ⟨result, passed⟩ := sound item List.mem_cons_self
          rw [first] at passed
          cases passed
    | ok result =>
      have rest : (Except.ok result >>= fun r => return r :: (← items.mapM f)) = .error e ↔
          items.mapM f = .error e := by
        cases items.mapM f <;> simp [bind, Except.bind, pure, Except.pure]
      rw [rest, ih]
      constructor
      · rintro ⟨before, other, after, rfl, sound, failed⟩
        refine ⟨item :: before, other, after, rfl, ?_, failed⟩
        rw [List.forall_mem_cons]
        exact ⟨⟨result, first⟩, sound⟩
      · rintro ⟨before, other, after, split, sound, failed⟩
        cases before with
        | nil =>
          cases split
          rw [first] at failed
          cases failed
        | cons earlier before =>
          cases split
          rw [List.forall_mem_cons] at sound
          exact ⟨before, other, after, rfl, sound.2, failed⟩

/-- A result comes from one of the items. -/
theorem exists_of_mem_results {items : List α} {results : List β}
    (h : items.mapM f = .ok results) {result : β} (found : result ∈ results) :
    ∃ item ∈ items, f item = .ok result := by
  rw [mapM_eq_ok_iff] at h
  induction h with
  | nil => cases found
  | cons first _ ih =>
    rcases List.mem_cons.mp found with rfl | found
    · exact ⟨_, List.mem_cons_self, first⟩
    · obtain ⟨item, inside, attempt⟩ := ih found
      exact ⟨item, List.mem_cons_of_mem _ inside, attempt⟩

end LocaleKeys
