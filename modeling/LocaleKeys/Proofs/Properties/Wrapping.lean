import LocaleKeys.Proofs.Properties.Composition

/-!
# Wrapped lines of a resource file

A natural line of an entry may be wrapped: what follows the place goes to a line of its own, with
blanks in front, and a backslash continues the first part. The backslash comes off again and the
blanks never count, so the same logical line is gathered, and what begins further down moves by one
line (`gather_wrapped`). The place must lie behind the first character that is no blank, where the
backslash continues the line and is not taken along by another one, and not in front of a blank.
-/

namespace LocaleKeys.Properties

/-- The number of a line behind line `n` when one more line is put in there. -/
def downBehind (n line : Nat) : Nat :=
  if n < line then line + 1 else line

theorem downBehind_of_le {n line : Nat} (h : line ≤ n) : downBehind n line = line :=
  if_neg (Nat.not_lt.mpr h)

/-- The place between `start` and `after` may be wrapped, where `start` is what stands in front of
it on its natural line. -/
structure WrapsAt (earlier start after : List Char) : Prop where
  lineStart : earlier = [] ∨ earlier.getLast? = some '\n'
  unbroken : '\n' ∉ start
  entry : LogicalLine.inEntry (LogicalLine.isOpenBehind (Text.lines earlier))
    (start ++ Text.firstPiece after) = true
  visible : ∃ c ∈ start, isBlank c = false
  even : LogicalLine.continues start = false
  noBlank : ∀ c ∈ after.head?, isBlank c = false

namespace LogicalLine

theorem dropWhile_isBlank_ne_nil {start : List Char} (h : ∃ c ∈ start, isBlank c = false) :
    start.dropWhile isBlank ≠ [] := by
  rw [Ne, List.dropWhile_eq_nil_iff]
  intro all
  obtain ⟨c, inside, visible⟩ := h
  rw [all c inside] at visible
  cases visible

theorem dropWhile_isBlank_append {start : List Char} (h : ∃ c ∈ start, isBlank c = false)
    (rest : List Char) :
    (start ++ rest).dropWhile isBlank = start.dropWhile isBlank ++ rest := by
  rw [List.dropWhile_append, if_neg]
  rw [List.isEmpty_iff]
  exact dropWhile_isBlank_ne_nil h

/-- Whether a natural line belongs to an entry is told by its first character that is no blank. -/
theorem inEntry_append {start : List Char} (h : ∃ c ∈ start, isBlank c = false) (isOpen : Bool)
    (rest rest' : List Char) :
    inEntry isOpen (start ++ rest) = inEntry isOpen (start ++ rest') := by
  obtain ⟨c, tail, split⟩ := List.exists_cons_of_ne_nil (dropWhile_isBlank_ne_nil h)
  rw [inEntry, inEntry, dropWhile_isBlank_append h, dropWhile_isBlank_append h, split]
  rfl

/-- The logical line of a wrapped natural line is the same, and the others move down. -/
theorem gather_wrapped {line : Nat} {opened : Option LogicalLine} (before : OpenedBefore line opened)
    {start rest blanks : List Char} (entry : inEntry opened.isSome (start ++ rest) = true)
    (visible : ∃ c ∈ start, isBlank c = false) (even : continues start = false)
    (noBlank : ∀ c ∈ rest.head?, isBlank c = false) (blank : ∀ c ∈ blanks, isBlank c = true)
    (more : List (List Char)) :
    gather line opened ((start ++ ['\\']) :: (blanks ++ rest) :: more) =
      (gather line opened ((start ++ rest) :: more)).map (relined (downBehind line)) := by
  obtain ⟨evenBefore, first⟩ := before.upTo
  have kept : downBehind line (upTo line opened).line = (upTo line opened).line :=
    downBehind_of_le (Nat.le_of_lt_succ first)
  have behind : ∀ n, line + 1 ≤ n → downBehind line n = n + 1 := fun n below => if_pos below
  -- The first part is continued, and without its backslash it is as it was.
  have continued : gather line opened ((start ++ ['\\']) :: (blanks ++ rest) :: more) =
      gather (line + 1)
        (some ⟨(upTo line opened).text ++ start.dropWhile isBlank, (upTo line opened).line⟩)
        ((blanks ++ rest) :: more) := by
    have odd : continues ((upTo line opened).text ++ (start.dropWhile isBlank ++ ['\\'])) = true := by
      rw [continues_append evenBefore, continues_concat_backslash, continues_dropWhile_isBlank, even]
      rfl
    rw [gather_inEntry (inEntry_append visible _ rest _ ▸ entry), dropWhile_isBlank_append visible,
      if_pos odd, ← List.append_assoc, List.dropLast_concat]
  -- The second part is what follows the place.
  have part : (blanks ++ rest).dropWhile isBlank = rest := by
    rw [List.dropWhile_append_of_pos blank, Text.dropWhile_eq_self noBlank]
  have joined : (upTo line opened).text ++ (start ++ rest).dropWhile isBlank =
      (upTo line opened).text ++ start.dropWhile isBlank ++ rest := by
    rw [dropWhile_isBlank_append visible, List.append_assoc]
  rw [continued, gather_inEntry rfl, gather_inEntry entry, joined, upTo_some, part]
  by_cases odd : continues ((upTo line opened).text ++ start.dropWhile isBlank ++ rest) = true
  · rw [if_pos odd, if_pos odd, ← gather_relined behind, Option.map_some, relined, kept]
  · rw [if_neg odd, if_neg odd, List.map_cons, ← gather_relined behind, relined, kept]
    rfl

/-- The logical lines of a text with a wrapped line, natural line by natural line. -/
theorem gather_append_wrapped {earlier : List (List Char)} {start rest blanks : List Char}
    (entry : inEntry (isOpenBehind earlier) (start ++ rest) = true)
    (visible : ∃ c ∈ start, isBlank c = false) (even : continues start = false)
    (noBlank : ∀ c ∈ rest.head?, isBlank c = false) (blank : ∀ c ∈ blanks, isBlank c = true)
    (more : List (List Char)) :
    gather 1 none (earlier ++ (start ++ ['\\']) :: (blanks ++ rest) :: more) =
      (gather 1 none (earlier ++ (start ++ rest) :: more)).map
        (relined (downBehind (1 + earlier.length))) := by
  obtain ⟨complete, opened, before, isOpen, above, behind⟩ :=
    exists_gather_append (openedBefore_none 1) earlier
  have kept : complete.map (relined (downBehind (1 + earlier.length))) = complete := by
    refine (List.map_congr_left fun logical inside => ?_).trans (List.map_id complete)
    rw [relined, downBehind_of_le (Nat.le_of_lt (above logical inside))]
    rfl
  have entry' : inEntry opened.isSome (start ++ rest) = true := by
    rw [isOpen]
    exact entry
  rw [behind, behind, gather_wrapped before entry' visible even noBlank blank, List.map_append, kept]

end LogicalLine

end Properties

/-! ## Wrapped texts -/

/-- Behind the start of a line the lines of a text are lines of their own. -/
theorem Text.lines_append_lineStart {earlier : List Char}
    (h : earlier = [] ∨ earlier.getLast? = some '\n') (text : List Char) :
    lines (earlier ++ text) = lines earlier ++ lines text ∧
      (lines earlier).length = earlier.count '\n' := by
  rcases h with rfl | last
  · exact ⟨rfl, rfl⟩
  · obtain ⟨before, rfl⟩ := List.getLast?_eq_some_iff.mp last
    refine ⟨?_, ?_⟩
    · rw [List.append_assoc, List.singleton_append, lines_append_behind_newline]
    · rw [length_lines_concat_newline, List.count_append]
      rfl

/-- The first line of a text goes on with what is put in front of the text. -/
theorem Text.exists_lines_append {after : List Char} (h : '\r' ∉ after) :
    ∃ more, (∀ front, '\n' ∉ front → '\r' ∉ front → front ++ after ≠ [] →
        lines (front ++ after) = (front ++ firstPiece after) :: more) ∧ (after = [] → more = []) := by
  by_cases newline : '\n' ∈ after
  · obtain ⟨rest, tail, rfl, fresh⟩ := List.eq_append_cons_of_mem newline
    have piece : firstPiece (rest ++ '\n' :: tail) = rest := by
      rw [firstPiece, List.takeWhile_append_of_pos fun c inside => ?_,
        List.takeWhile_cons_of_neg (by decide), List.append_nil]
      simpa using fun same : c = '\n' => fresh (same ▸ inside)
    refine ⟨lines tail, fun front fresh' noReturn _ => ?_, by simp⟩
    have unbroken : ∀ c ∈ front ++ rest, c ≠ '\n' ∧ c ≠ '\r' := by
      simp only [List.mem_append, not_or] at h ⊢
      rintro c (inside | inside)
      · exact ⟨fun same => fresh' (same ▸ inside), fun same => noReturn (same ▸ inside)⟩
      · exact ⟨fun same => fresh (same ▸ inside), fun same => h.1 (same ▸ inside)⟩
    rw [← List.append_assoc, lines_append_newline (not_mem_of_unbroken unbroken),
      dropReturn_of_unbroken unbroken, piece]
  · have piece : firstPiece after = after :=
      List.takeWhile_eq_self_iff.mpr fun c inside => by
        simpa using fun same : c = '\n' => newline (same ▸ inside)
    refine ⟨[], fun front fresh' _ nonempty => ?_, fun _ => rfl⟩
    rw [piece, lines_singleton (by simp [fresh', newline]) nonempty]

namespace Properties

open LogicalLine (ofText gather)

/-- The logical lines of a text with a wrapped line. -/
theorem ofText_wrapped {earlier start after blanks : List Char} (h : WrapsAt earlier start after)
    (noReturns : '\r' ∉ earlier ++ start ++ after) (blank : ∀ c ∈ blanks, isBlank c = true) :
    ofText (earlier ++ start ++ '\\' :: '\n' :: (blanks ++ after)) =
      (ofText (earlier ++ start ++ after)).map (.relined (downBehind (earlier.count '\n' + 1))) := by
  simp only [List.mem_append, not_or] at noReturns
  obtain ⟨⟨-, noReturn⟩, noReturn'⟩ := noReturns
  obtain ⟨more, lines_eq, last⟩ := Text.exists_lines_append noReturn'
  obtain ⟨c, inside, visible⟩ := h.visible
  have whole : Text.lines (start ++ after) = (start ++ Text.firstPiece after) :: more :=
    lines_eq start h.unbroken noReturn (by simp [List.ne_nil_of_mem inside])
  have first : Text.lines (start ++ '\\' :: '\n' :: (blanks ++ after)) =
      (start ++ ['\\']) :: Text.lines (blanks ++ after) := by
    rw [← List.singleton_append, ← List.append_assoc, Text.lines_append_newline, Text.dropReturn_eq_self]
    · simp
    · simp [h.unbroken]
  have head : ∀ c ∈ (Text.firstPiece after).head?, isBlank c = false := by
    intro c first
    obtain ⟨rest, split⟩ := List.head?_eq_some_iff.mp first
    obtain ⟨tail, begins⟩ : Text.firstPiece after <+: after := List.takeWhile_prefix _
    exact h.noBlank c (by rw [← begins, split]; rfl)
  have wrapped := LogicalLine.gather_append_wrapped h.entry h.visible h.even head blank more
  obtain ⟨front, length⟩ := Text.lines_append_lineStart h.lineStart (start ++ after)
  rw [length, Nat.add_comm] at wrapped
  rw [ofText, ofText, List.append_assoc, List.append_assoc, front, whole,
    (Text.lines_append_lineStart h.lineStart _).1, first, ← wrapped]
  by_cases nonempty : blanks ++ after = []
  · -- Nothing follows the backslash, so there is no second line, as if there were an empty one.
    obtain ⟨rfl, rfl⟩ := List.append_eq_nil_iff.mp nonempty
    have added := LogicalLine.gather_concat_empty (LogicalLine.openedBefore_none 1)
      (Text.lines earlier ++ [start ++ ['\\']])
    rw [List.append_assoc] at added
    rw [last rfl]
    exact added.symm
  · have noNewline : '\n' ∉ blanks := fun inside => absurd (blank _ inside) (by decide)
    have noReturn : '\r' ∉ blanks := fun inside => absurd (blank _ inside) (by decide)
    rw [lines_eq blanks noNewline noReturn nonempty]

/-- Wrapping a line of an entry changes nothing but the numbers of the lines behind it: the same
definitions are read, or the same malformed escape is found. -/
theorem parse_wrapped {earlier start after blanks : List Char} (h : WrapsAt earlier start after)
    (noReturns : '\r' ∉ earlier ++ start ++ after) (blank : ∀ c ∈ blanks, isBlank c = true) :
    parse (earlier ++ start ++ '\\' :: '\n' :: (blanks ++ after)) =
      relined (downBehind (earlier.count '\n' + 1)) (parse (earlier ++ start ++ after)) := by
  rw [parse, parse, ofText_wrapped h noReturns blank, mapM_ofLine?_relined]

/-- A line that is wrapped in front of what would begin a comment on a line of its own. -/
theorem parse_wrapped_numberSign :
    WrapsAt "x=1\n".toList "k=a".toList "#\\u0041\nz=2".toList ∧
      parse ("x=1\n".toList ++ "k=a".toList ++
          '\\' :: '\n' :: ("\t ".toList ++ "#\\u0041\nz=2".toList)) =
        .ok [⟨"x".toList, "1".toList, 1⟩, ⟨"k".toList, "a#A".toList, 2⟩,
          ⟨"z".toList, "2".toList, 4⟩] := by
  have place : WrapsAt "x=1\n".toList "k=a".toList "#\\u0041\nz=2".toList :=
    ⟨.inr (by decide), by decide, by decide, ⟨'k', by decide, by decide⟩, by decide,
      fun _ => by rintro ⟨⟩; rfl⟩
  have blank : ∀ c ∈ "\t ".toList, isBlank c = true := List.all_eq_true.mp (by decide)
  exact ⟨place, (parse_wrapped place (by decide) blank).trans (by decide +kernel)⟩

end LocaleKeys.Properties
