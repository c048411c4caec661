import LocaleKeys.Source.Position

/-!
# Positions of a text that is being read

`Cursor.StandsAt` says where a cursor is: behind a part of a text that has been read and before the
rest of it. It holds at the start, every step keeps it (`StandsAt.advance`), and it determines the
position and the line of the cursor. Positions grow along a text (`Position.before_after_append`).
-/

namespace LocaleKeys

namespace Position

/-- The position lies before another one in a text. -/
def Before (p q : Position) : Prop :=
  p.line < q.line ∨ (p.line = q.line ∧ p.col < q.col)

theorem Before.trans {p q r : Position} (h : p.Before q) (h' : q.Before r) : p.Before r := by
  unfold Before at *
  omega

theorem before_advance (p : Position) (c : Char) : p.Before (p.advance c) := by
  unfold Before advance
  split
  · exact .inl (by simp)
  · exact .inr (by simp)

theorem after_append_singleton (text : List Char) (c : Char) :
    after (text ++ [c]) = (after text).advance c := by
  simp [after]

/-- The position behind a text is before the position behind any more of it. -/
theorem before_after_append {text more : List Char} (h : more ≠ []) :
    (after text).Before (after (text ++ more)) := by
  induction more generalizing text with
  | nil => exact absurd rfl h
  | cons c more ih =>
    have first : (after text).Before (after (text ++ [c])) := by
      rw [after_append_singleton]
      exact before_advance _ c
    by_cases hm : more = []
    · subst hm
      exact first
    · rw [show text ++ c :: more = (text ++ [c]) ++ more by simp]
      exact first.trans (ih hm)

/-- Lines never decrease along a text. -/
theorem line_le_line_foldl (p : Position) (text : List Char) :
    p.line ≤ (text.foldl advance p).line := by
  induction text generalizing p with
  | nil => exact Nat.le_refl _
  | cons c rest ih =>
    have step : p.line ≤ (p.advance c).line := by
      unfold advance
      split
      · exact Nat.le_succ _
      · exact Nat.le_refl _
    exact Nat.le_trans step (ih _)

theorem one_le_line_after (text : List Char) : 1 ≤ (after text).line :=
  line_le_line_foldl start text

end Position

namespace Text

/-- The first of the pieces between newlines. -/
theorem head?_splitOn_newline (text : List Char) :
    (text.splitOn '\n').head? = some (firstPiece text) := by
  induction text with
  | nil => rfl
  | cons c rest ih =>
    rw [List.splitOn_cons_eq_if_modifyHead]
    by_cases hc : c = '\n'
    · simp [hc, firstPiece]
    · simp [hc, firstPiece, List.head?_modifyHead, ih]

end Text

namespace Cursor

/-- The cursor stands behind the text `before`, and `rest` is still to come. -/
structure StandsAt (cursor : Cursor) (before rest : List Char) : Prop where
  position : cursor.position = Position.after before
  line : ∃ current, '\n' ∉ current ∧ cursor.fromLineStart = current ++ rest ∧
    ((before ++ rest).splitOn '\n').drop (cursor.position.line - 1)
      = cursor.fromLineStart.splitOn '\n'

theorem standsAt_start (text : List Char) : (start text).StandsAt [] text :=
  ⟨rfl, [], List.not_mem_nil, rfl, rfl⟩

/-- One step keeps the cursor where it says it is. -/
theorem StandsAt.advance {cursor : Cursor} {before rest : List Char} {c : Char}
    (h : cursor.StandsAt before (c :: rest)) :
    (cursor.advance c rest).StandsAt (before ++ [c]) rest := by
  obtain ⟨current, fresh, split, pieces⟩ := h.line
  have counted := Position.one_le_line_after before
  rw [← h.position] at counted
  constructor
  · rw [Position.after_append_singleton, ← h.position]
    rfl
  · by_cases hc : c = '\n'
    · subst hc
      refine ⟨[], List.not_mem_nil, rfl, ?_⟩
      -- The current line ends, and the pieces behind it are those of the rest.
      have next : cursor.position.line + 1 - 1 = (cursor.position.line - 1) + 1 := by omega
      rw [split, List.splitOn_append_cons_self_of_not_mem fresh] at pieces
      simp only [Cursor.advance, Position.advance, if_true, List.append_assoc,
        List.singleton_append, next, ← List.drop_drop, pieces, List.drop_one, List.tail_cons]
    · refine ⟨current ++ [c], ?_, ?_, ?_⟩
      · simpa [Ne.symm hc] using fresh
      · simp [Cursor.advance, hc, split]
      · simpa [Cursor.advance, Position.advance, hc] using pieces

/-- The line of a cursor is the line of the text at its position. -/
theorem StandsAt.line_eq {cursor : Cursor} {before rest : List Char}
    (h : cursor.StandsAt before rest) :
    cursor.line = lineText (before ++ rest) (Position.after before).line := by
  obtain ⟨current, -, -, pieces⟩ := h.line
  have first : ((before ++ rest).splitOn '\n')[cursor.position.line - 1]?
      = some (Text.firstPiece cursor.fromLineStart) := by
    rw [← List.head?_drop, pieces, Text.head?_splitOn_newline]
  rw [lineText, ← h.position, List.getD_eq_getElem?_getD, first]
  rfl

end Cursor

end LocaleKeys
