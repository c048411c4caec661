import LocaleKeys.Proofs.CallSite.Scan
import LocaleKeys.Proofs.Text
import Mathlib.Data.List.DropRight

/-!
# Occurrences point at calls

The position after a text counts its newlines and the characters behind the last of them
(`Position.after_eq`), and the line there begins with these characters (`lineText_append`). So a key
that the scan finds has the line of its call with it, and the call begins at its column
(`pointsAtCall_of_mem_scan`).
-/

namespace LocaleKeys

namespace Text

/-- The text behind its last newline. -/
def lastPiece (text : List Char) : List Char :=
  text.rtakeWhile (· != '\n')

theorem not_mem_lastPiece (text : List Char) : '\n' ∉ lastPiece text := by
  intro inside
  simpa using List.mem_rtakeWhile_imp inside

theorem lastPiece_append_singleton (text : List Char) (c : Char) :
    lastPiece (text ++ [c]) = if c = '\n' then [] else lastPiece text ++ [c] := by
  rw [lastPiece, List.rtakeWhile_concat, lastPiece]
  by_cases h : c = '\n' <;> simp [h]

/-- The pieces from the current line on are those of the text from the start of this line on. -/
theorem drop_count_splitOn (before rest : List Char) :
    ((before ++ rest).splitOn '\n').drop (before.count '\n')
      = (lastPiece before ++ rest).splitOn '\n' := by
  induction before using List.reverseRecOn generalizing rest with
  | nil => rfl
  | append_singleton before c ih =>
    rw [List.append_assoc, List.singleton_append, lastPiece_append_singleton, List.count_append]
    by_cases h : c = '\n'
    · subst h
      rw [List.count_singleton_self, ← List.drop_drop, ih,
        List.splitOn_append_cons_self_of_not_mem (not_mem_lastPiece before)]
      rfl
    · rw [List.count_singleton, if_neg (by simpa using h), Nat.add_zero, ih, if_neg h,
        List.append_assoc, List.singleton_append]

/-- What a line starts with is quoted if no carriage return ends it. -/
theorem prefix_firstLine {front : List Char} {c : Char} (unbroken : '\n' ∉ front)
    (last : front.getLast? = some c) (h : c ≠ '\r') (rest : List Char) :
    front <+: firstLine (front ++ rest) := by
  have kept : dropEndWhile (· == '\r') front = front := by
    obtain ⟨letters, rfl⟩ := List.getLast?_eq_some_iff.mp last
    exact dropEndWhile_append_singleton (by simpa using h) letters
  rw [firstLine, firstPiece, List.takeWhile_append_of_pos, dropEndWhile_append]
  · split
    · exact ⟨[], by rw [kept, List.append_nil]⟩
    · exact List.prefix_append _ _
  · intro x hx
    simp only [bne_iff_ne]
    rintro rfl
    exact unbroken hx

end Text

/-- The line counts the newlines of the text, and the column the characters behind the last one. -/
theorem Position.after_eq (text : List Char) :
    after text = ⟨text.count '\n' + 1, (Text.lastPiece text).length + 1⟩ := by
  induction text using List.reverseRecOn with
  | nil => rfl
  | append_singleton text c ih =>
    rw [after_append_singleton, ih, Text.lastPiece_append_singleton, advance]
    by_cases h : c = '\n' <;> simp [h]

/-- The line that a part of a text ends in begins behind the last newline of this part. -/
theorem getElem?_splitOn_after (before rest : List Char) :
    ((before ++ rest).splitOn '\n')[(Position.after before).line - 1]?
      = some (Text.firstPiece (Text.lastPiece before ++ rest)) := by
  rw [Position.after_eq, Nat.add_sub_cancel, ← List.head?_drop, Text.drop_count_splitOn,
    Text.head?_splitOn_newline]

theorem lineText_append (before rest : List Char) :
    lineText (before ++ rest) (Position.after before).line
      = Text.firstLine (Text.lastPiece before ++ rest) := by
  rw [lineText, List.getD_eq_getElem?_getD, getElem?_splitOn_after]
  rfl

namespace CallSite

/-- A call begins with the name of the class. -/
theorem OpensCall.exists_className {bundle : Bundle} {text opened : List Char}
    (h : OpensCall bundle text opened) : ∃ more, text = className ++ more := by
  obtain ⟨matched, ⟨a, b, c, -, rfl⟩, rfl⟩ := h
  exact ⟨a ++ ['.'] ++ b ++ bundle.method.toList ++ c ++ ['('] ++ opened,
    by simp only [List.append_assoc]⟩

/-- The occurrence of a key has the line of the text that its position names, without the carriage
returns at its end, and the class name of the call begins at its column. -/
structure PointsAtCall (text : List Char) (o : KeyOccurrence) : Prop where
  unbroken : '\n' ∉ o.sourceLine.toList
  line : ∃ row returns, o.position.line = row + 1 ∧
    (text.splitOn '\n')[row]? = some (o.sourceLine.toList ++ returns) ∧ ∀ c ∈ returns, c = '\r'
  trimmed : o.sourceLine.toList.getLast? ≠ some '\r'
  call : ∃ front, front ++ className <+: o.sourceLine.toList ∧ o.position.col = front.length + 1

/-- Every key that a scan finds points at its call. -/
theorem pointsAtCall_of_mem_scan {bundle : Bundle} {text : List Char} {found : List KeyOccurrence}
    (h : scan bundle text = .ok found) {o : KeyOccurrence} (inside : o ∈ found) :
    PointsAtCall text o := by
  obtain ⟨before, rest, opened, rfl, opens, position, line⟩ := exists_place_of_mem_scan h inside
  obtain ⟨more, rfl⟩ := opens.exists_className
  rw [position, lineText_append] at line
  have quoted : o.sourceLine.toList
      = Text.firstLine (Text.lastPiece before ++ (className ++ more)) := by
    rw [line, String.toList_ofList]
  obtain ⟨returns, piece, only, last⟩ := Text.exists_append_dropEndWhile (· == '\r')
    (Text.firstPiece (Text.lastPiece before ++ (className ++ more)))
  rw [← Text.firstLine, ← quoted] at piece last
  constructor
  · intro broken
    have inside : '\n' ∈ Text.firstPiece (Text.lastPiece before ++ (className ++ more)) := by
      rw [piece]
      exact List.mem_append_left _ broken
    simpa using List.mem_takeWhile_imp inside
  · refine ⟨before.count '\n', returns, by rw [position, Position.after_eq], ?_, ?_⟩
    · rw [← piece, ← getElem?_splitOn_after, Position.after_eq, Nat.add_sub_cancel]
    · simpa using only
  · intro ends
    simpa using last _ ends
  · refine ⟨Text.lastPiece before, ?_, by rw [position, Position.after_eq]⟩
    have unbroken : '\n' ∉ Text.lastPiece before ++ className := by
      rw [List.mem_append]
      rintro (inside | inside)
      · exact Text.not_mem_lastPiece before inside
      · exact absurd inside (by decide)
    have last : (Text.lastPiece before ++ className).getLast? = some 'n' := by
      rw [List.getLast?_append]
      rfl
    rw [quoted, ← List.append_assoc]
    exact Text.prefix_firstLine unbroken last (by decide) more

end CallSite

end LocaleKeys
