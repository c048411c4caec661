import LocaleKeys.Properties.Entry

/-!
# Line numbers of a resource file

The number of a line is only passed on. Natural lines that stand further down give the same logical
lines further down (`gather_relined`), and these are read as the same definitions, or the same
malformed escape, further down (`mapM_ofLine?_relined`).
-/

namespace LocaleKeys.Properties

/-- The logical line with its line number changed. -/
def LogicalLine.relined (f : Nat → Nat) (logical : LogicalLine) : LogicalLine :=
  { logical with line := f logical.line }

/-- The definition with its line number changed. -/
def Entry.relined (f : Nat → Nat) (entry : Entry) : Entry :=
  { entry with line := f entry.line }

/-- What a text is read as, with the line numbers changed. -/
def relined (f : Nat → Nat) :
    Except MalformedEscape (List Entry) → Except MalformedEscape (List Entry)
  | .ok entries => .ok (entries.map (.relined f))
  | .error e => .error ⟨f e.line⟩

variable {f : Nat → Nat}

theorem Entry.ofLine?_relined {logical : LogicalLine} :
    Entry.ofLine? (logical.relined f) =
      ((Entry.ofLine? logical).map (Entry.relined f)).mapError fun e => ⟨f e.line⟩ := by
  simp only [Entry.ofLine?, LogicalLine.relined]
  split <;> rfl

theorem mapM_ofLine?_relined (logicals : List LogicalLine) :
    (logicals.map (.relined f)).mapM Entry.ofLine? = relined f (logicals.mapM Entry.ofLine?) := by
  induction logicals with
  | nil => rfl
  | cons logical logicals ih =>
    rw [List.map_cons, List.mapM_cons, List.mapM_cons, Entry.ofLine?_relined, ih]
    cases Entry.ofLine? logical with
    | error e => rfl
    | ok entry =>
      cases logicals.mapM Entry.ofLine? with
      | error e => rfl
      | ok entries => rfl

/-- Natural lines further down give the same logical lines further down. -/
theorem LogicalLine.gather_relined {line more : Nat} (h : ∀ n, line ≤ n → f n = n + more)
    (opened : Option LogicalLine) (naturals : List (List Char)) :
    gather (line + more) (opened.map (relined f)) naturals =
      (gather line opened naturals).map (relined f) := by
  induction naturals generalizing line opened with
  | nil => cases opened <;> rfl
  | cons natural naturals ih =>
    have here : f line = line + more := h line (Nat.le_refl _)
    have next : ∀ opened, gather (line + more + 1) (opened.map (relined f)) naturals =
        (gather (line + 1) opened naturals).map (relined f) := by
      intro opened
      rw [Nat.add_right_comm]
      exact ih (fun n below => h n (Nat.le_of_succ_le below)) opened
    cases opened with
    | none =>
      simp only [gather, Option.map_none]
      split
      · exact next none
      · have opens := next (some ⟨(natural.dropWhile isBlank).dropLast, line⟩)
        simp only [Option.map_some, relined, here] at opens
        split
        · exact opens
        · rw [List.map_cons, relined, here]
          exact congrArg _ (next none)
    | some opened =>
      simp only [gather, Option.map_some, relined]
      split
      · exact next (some ⟨_, opened.line⟩)
      · exact congrArg _ (next none)

end LocaleKeys.Properties
