import LocaleKeys.Proofs.CallSite.Pointing
import LocaleKeys.Source.LineIndex

/-!
# Byte offsets have the position of the text before them

A text can be cut at a byte offset that lies between two characters, which is then the size of the
text before it (`Text.cutAt?_eq_some_iff`). Of the starts of lines, the first one and those behind
the newlines of that text are up to the offset, so the bisection comes to their number
(`search_line`), and the last of them is the start of the current line (`getLast?_starts`).
`position?_eq_some_iff` puts this together, and `lineText?_eq` does the same for the text of a line.
-/

namespace LocaleKeys

namespace Text

/-! ## Sizes and cuts -/

@[simp] theorem byteSize_nil : byteSize [] = 0 := rfl

@[simp] theorem byteSize_cons (c : Char) (text : List Char) :
    byteSize (c :: text) = c.utf8Size + byteSize text := rfl

@[simp] theorem byteSize_append (text more : List Char) :
    byteSize (text ++ more) = byteSize text + byteSize more := by
  induction text with
  | nil => simp
  | cons c text ih => rw [List.cons_append, byteSize_cons, byteSize_cons, ih, Nat.add_assoc]

theorem byteSize_pos {text : List Char} (h : text ≠ []) : 0 < byteSize text := by
  obtain ⟨c, rest, rfl⟩ := List.exists_cons_of_ne_nil h
  rw [byteSize_cons]
  exact Nat.add_pos_left c.utf8Size_pos _

theorem cutAt?_byteSize (before rest : List Char) :
    cutAt? (byteSize before) (before ++ rest) = some (before, rest) := by
  induction before with
  | nil => rw [byteSize_nil, cutAt?, List.nil_append]
  | cons c before ih =>
    obtain ⟨n, size⟩ := Nat.exists_eq_add_one.mpr (byteSize_pos (List.cons_ne_nil c before))
    have more : n + 1 - c.utf8Size = byteSize before := by
      rw [← size, byteSize_cons, Nat.add_sub_cancel_left]
    rw [size, List.cons_append, cutAt?, if_pos, more, ih]
    · rfl
    · rw [← size, byteSize_cons]
      exact Nat.le_add_right _ _

/-- A text can be cut behind every part that it starts with and nowhere else. -/
theorem cutAt?_eq_some_iff {n : Nat} {text before rest : List Char} :
    cutAt? n text = some (before, rest) ↔ text = before ++ rest ∧ byteSize before = n := by
  constructor
  · intro h
    induction text generalizing n before with
    | nil =>
      cases n with
      | zero =>
        cases h
        exact ⟨rfl, rfl⟩
      | succ n => cases h
    | cons c text ih =>
      cases n with
      | zero =>
        cases h
        exact ⟨rfl, rfl⟩
      | succ n =>
        rw [cutAt?] at h
        split at h
        next fits =>
          obtain ⟨⟨before, rest⟩, cut, same⟩ := Option.map_eq_some_iff.mp h
          cases same
          obtain ⟨rfl, size⟩ := ih cut
          refine ⟨rfl, ?_⟩
          rw [byteSize_cons]
          omega
        next => cases h
  · rintro ⟨rfl, rfl⟩
    exact cutAt?_byteSize before rest

/-- A part of a text is what lies between two cuts. -/
theorem slice?_eq_some_iff {text part : List Char} {start stop : Nat} :
    slice? text start stop = some part ↔ ∃ before rest, text = before ++ part ++ rest ∧
      byteSize before = start ∧ byteSize (before ++ part) = stop := by
  constructor
  · intro h
    rw [slice?] at h
    split at h
    next order =>
      simp only [bind, Option.bind_eq_some_iff, pure, Option.some.injEq] at h
      obtain ⟨⟨before, behind⟩, first, ⟨found, rest⟩, second, same⟩ := h
      obtain rfl : found = part := same
      obtain ⟨rfl, size⟩ := cutAt?_eq_some_iff.mp first
      obtain ⟨rfl, size'⟩ := cutAt?_eq_some_iff.mp second
      refine ⟨before, rest, (List.append_assoc _ _ _).symm, size, ?_⟩
      rw [byteSize_append]
      omega
    next => cases h
  · rintro ⟨before, rest, rfl, rfl, rfl⟩
    have more : byteSize (before ++ part) - byteSize before = byteSize part := by
      rw [byteSize_append, Nat.add_sub_cancel_left]
    rw [slice?, if_pos (by simp), more, List.append_assoc, cutAt?_byteSize]
    simp only [bind, Option.bind_some, cutAt?_byteSize, pure]

end Text

namespace LineIndex

/-! ## The starts of lines -/

theorem startsFrom_append (offset : Nat) (text more : List Char) :
    startsFrom offset (text ++ more)
      = startsFrom offset text ++ startsFrom (offset + Text.byteSize text) more := by
  induction text generalizing offset with
  | nil => rfl
  | cons c text ih =>
    rw [List.cons_append, startsFrom, startsFrom, ih, Text.byteSize_cons, Nat.add_assoc]
    split <;> rfl

theorem length_startsFrom (offset : Nat) (text : List Char) :
    (startsFrom offset text).length = text.count '\n' := by
  induction text generalizing offset with
  | nil => rfl
  | cons c text ih =>
    rw [startsFrom, List.count_cons]
    by_cases h : c = '\n' <;> simp [h, ih]

theorem bounds_of_mem_startsFrom {offset start : Nat} {text : List Char}
    (h : start ∈ startsFrom offset text) :
    offset < start ∧ start ≤ offset + Text.byteSize text := by
  induction text generalizing offset with
  | nil => cases h
  | cons c text ih =>
    have positive := c.utf8Size_pos
    have later : start ∈ startsFrom (offset + c.utf8Size) text →
        offset < start ∧ start ≤ offset + Text.byteSize (c :: text) := by
      intro behind
      have bounds := ih behind
      rw [Text.byteSize_cons]
      omega
    rw [startsFrom] at h
    split at h
    · rcases List.mem_cons.mp h with rfl | behind
      · rw [Text.byteSize_cons]
        omega
      · exact later behind
    · exact later h

/-- Each line starts behind the lines before it. -/
theorem startsFrom_pairwise (offset : Nat) (text : List Char) :
    (offset :: startsFrom offset text).Pairwise (· < ·) := by
  refine .cons (fun start h => (bounds_of_mem_startsFrom h).1) ?_
  induction text generalizing offset with
  | nil => exact .nil
  | cons c text ih =>
    rw [startsFrom]
    split
    next h =>
      subst h
      exact .cons (fun start h => (bounds_of_mem_startsFrom h).1) (ih _)
    next => exact ih _

/-- The last line starts behind the last newline. -/
theorem getLast?_starts (text : List Char) :
    ∃ head, text = head ++ Text.lastPiece text ∧
      (0 :: startsFrom 0 text).getLast? = some (Text.byteSize head) := by
  induction text using List.reverseRecOn with
  | nil => exact ⟨[], rfl, rfl⟩
  | append_singleton text c ih =>
    obtain ⟨head, split, last⟩ := ih
    rw [Text.lastPiece_append_singleton, startsFrom_append, Nat.zero_add, startsFrom]
    by_cases h : c = '\n'
    · subst h
      refine ⟨text ++ ['\n'], by simp, ?_⟩
      rw [if_pos rfl, startsFrom, ← List.cons_append, List.getLast?_concat, Text.byteSize_append]
      rfl
    · refine ⟨head, ?_, ?_⟩
      · rw [if_neg h, ← List.append_assoc, ← split]
      · rw [if_neg h, startsFrom, List.append_nil, last]

/-! ## Bisection -/

/-- The numbers below the index `k` are those up to the target. -/
structure Splits (numbers : Array Nat) (target k : Nat) : Prop where
  bound : k ≤ numbers.size
  lt_iff : ∀ i (h : i < numbers.size), i < k ↔ numbers[i] ≤ target

theorem splits_append {low high : List Nat} {target : Nat} (below : ∀ x ∈ low, x ≤ target)
    (above : ∀ x ∈ high, target < x) : Splits (low ++ high).toArray target low.length := by
  refine ⟨by simp, fun i h => ?_⟩
  rw [List.getElem_toArray, List.getElem_append]
  split
  next inside => simpa [inside] using below _ (List.getElem_mem inside)
  next outside =>
    have room : i - low.length < high.length := by
      simp at h
      omega
    have larger := above _ (List.getElem_mem room)
    omega

/-- If the end of the smaller numbers is between the bounds, the bisection comes to it. -/
theorem search_line {numbers : Array Nat} {target k lo hi : Nat} {bound : hi ≤ numbers.size}
    (increasing : numbers.toList.Pairwise (· < ·)) (h : Splits numbers target k) (above : lo ≤ k)
    (below : k ≤ hi) : (search numbers target lo hi bound).line = k := by
  fun_induction search numbers target lo hi bound with
  | case1 lo hi bound inside mid _ held order =>
    -- The number at the middle is the target, so the next one is larger.
    have same := Nat.compare_eq_eq.mp order
    have first := (h.lt_iff mid held).mpr (Nat.le_of_eq same)
    have last : ¬ mid + 1 < k := by
      intro more
      have next : mid + 1 < numbers.size := Nat.lt_of_lt_of_le more h.bound
      have small := (h.lt_iff (mid + 1) next).mp more
      have larger : numbers[mid] < numbers[mid + 1] :=
        List.pairwise_iff_getElem.mp increasing mid (mid + 1) held next (Nat.lt_succ_self mid)
      omega
    rw [Place.line]
    omega
  | case2 lo hi bound inside mid _ held order ih =>
    have small := Nat.compare_eq_lt.mp order
    exact ih ((h.lt_iff mid held).mpr (Nat.le_of_lt small)) below
  | case3 lo hi bound inside mid _ held order ih =>
    have large := Nat.compare_eq_gt.mp order
    refine ih above (Nat.le_of_not_lt fun more => ?_)
    have small := (h.lt_iff mid held).mp more
    omega
  | case4 lo hi bound outside =>
    rw [Place.line]
    omega

/-! ## Positions -/

theorem starts_ofText_append (before rest : List Char) :
    (ofText (before ++ rest)).starts
      = ((0 :: startsFrom 0 before) ++ startsFrom (Text.byteSize before) rest).toArray := by
  rw [ofText, startsFrom_append, Nat.zero_add, List.cons_append]

theorem lineOf_byteSize (before rest : List Char) :
    (ofText (before ++ rest)).lineOf (Text.byteSize before) = before.count '\n' + 1 := by
  have increasing : (ofText (before ++ rest)).starts.toList.Pairwise (· < ·) :=
    startsFrom_pairwise 0 (before ++ rest)
  have split : Splits (ofText (before ++ rest)).starts (Text.byteSize before)
      (0 :: startsFrom 0 before).length := by
    rw [starts_ofText_append]
    apply splits_append
    · rw [List.forall_mem_cons]
      refine ⟨Nat.zero_le _, fun start h => ?_⟩
      have bounds := bounds_of_mem_startsFrom h
      omega
    · exact fun start h => (bounds_of_mem_startsFrom h).1
  rw [lineOf, search_line increasing split (Nat.zero_le _) split.bound, List.length_cons,
    length_startsFrom]

/-- The position at the end of a part that the text starts with is the position after this part. -/
theorem position?_byteSize (before rest : List Char) :
    (ofText (before ++ rest)).position? (before ++ rest) (Text.byteSize before)
      = some (Position.after before) := by
  obtain ⟨head, split, last⟩ := getLast?_starts before
  have start : (ofText (before ++ rest)).starts[before.count '\n']?
      = some (Text.byteSize head) := by
    have length : (0 :: startsFrom 0 before).length = before.count '\n' + 1 := by
      rw [List.length_cons, length_startsFrom]
    rw [starts_ofText_append, List.getElem?_toArray, List.getElem?_append_left (by omega), ← last,
      List.getLast?_eq_getElem?, length, Nat.add_sub_cancel]
  have current : Text.slice? (before ++ rest) (Text.byteSize head) (Text.byteSize before)
      = some (Text.lastPiece before) :=
    Text.slice?_eq_some_iff.mpr ⟨head, rest, by rw [← split], rfl, by rw [← split]⟩
  rw [position?, lineOf_byteSize, Position.after_eq]
  simp only [start, current, bind, Option.bind_some, pure]

/-- The offsets with a position are those between two characters. -/
theorem position?_eq_some_iff {text : List Char} {offset : Nat} {p : Position} :
    (ofText text).position? text offset = some p ↔
      ∃ before rest, text = before ++ rest ∧ Text.byteSize before = offset ∧
        Position.after before = p := by
  constructor
  · intro h
    have found := h
    rw [position?] at found
    split at found
    next => cases found
    next row _ =>
      simp only [bind, Option.bind_eq_some_iff] at found
      obtain ⟨start, -, current, part, -⟩ := found
      obtain ⟨head, rest, rfl, -, rfl⟩ := Text.slice?_eq_some_iff.mp part
      rw [position?_byteSize] at h
      exact ⟨head ++ current, rest, rfl, rfl, Option.some.inj h⟩
  · rintro ⟨before, rest, rfl, rfl, rfl⟩
    exact position?_byteSize before rest

/-! ## Lines -/

theorem startsFrom_of_not_mem {line : List Char} (h : '\n' ∉ line) (offset : Nat) :
    startsFrom offset line = [] := by
  rw [← List.length_eq_zero_iff, length_startsFrom, List.count_eq_zero]
  exact h

theorem startsFrom_line {line : List Char} (h : '\n' ∉ line) (offset : Nat) (more : List Char) :
    startsFrom offset (line ++ '\n' :: more)
      = (offset + Text.byteSize line + 1)
        :: startsFrom (offset + Text.byteSize line + 1) more := by
  rw [startsFrom_append, startsFrom_of_not_mem h, List.nil_append, startsFrom]
  rfl

/-- A row of a text that starts at an offset is between newlines and has the start that the index
holds, with the start of the next row behind its newline; what is no row has no start. -/
theorem row_cases (offset : Nat) (text : List Char) (row : Nat) :
    ((text.splitOn '\n')[row]? = none ∧ (offset :: startsFrom offset text)[row]? = none) ∨
    ∃ before piece rest, text = before ++ piece ++ rest ∧
      (text.splitOn '\n')[row]? = some piece ∧
      (offset :: startsFrom offset text)[row]? = some (offset + Text.byteSize before) ∧
      (startsFrom offset text)[row]?
        = if rest = [] then none else some (offset + Text.byteSize (before ++ piece) + 1) := by
  induction row generalizing offset text with
  | zero =>
    right
    by_cases h : '\n' ∈ text
    · obtain ⟨line, more, rfl, unbroken⟩ := List.eq_append_cons_of_mem h
      rw [startsFrom_line unbroken, List.splitOn_append_cons_self_of_not_mem unbroken]
      exact ⟨[], line, '\n' :: more, rfl, rfl, rfl, rfl⟩
    · rw [startsFrom_of_not_mem h, List.splitOn_eq_singleton h]
      exact ⟨[], text, [], by simp, rfl, rfl, rfl⟩
  | succ row ih =>
    by_cases h : '\n' ∈ text
    · obtain ⟨line, more, rfl, unbroken⟩ := List.eq_append_cons_of_mem h
      have behind : ∀ more, offset + Text.byteSize (line ++ '\n' :: more)
          = offset + Text.byteSize line + 1 + Text.byteSize more := by
        intro more
        have one : '\n'.utf8Size = 1 := rfl
        rw [Text.byteSize_append, Text.byteSize_cons, one]
        omega
      rw [startsFrom_line unbroken, List.splitOn_append_cons_self_of_not_mem unbroken,
        List.getElem?_cons_succ, List.getElem?_cons_succ, List.getElem?_cons_succ]
      rcases ih (offset + Text.byteSize line + 1) more with beyond | inside
      · exact .inl beyond
      · obtain ⟨before, piece, rest, rfl, found, start, next⟩ := inside
        refine .inr ⟨line ++ '\n' :: before, piece, rest, by simp, found, ?_, ?_⟩
        · rw [start, behind]
        · rw [next, List.append_assoc, List.cons_append, behind]
    · left
      rw [List.splitOn_eq_singleton h, startsFrom_of_not_mem h]
      exact ⟨rfl, rfl⟩

/-- The index quotes every line as it is in the text. -/
theorem lineText?_eq (text : List Char) (row : Nat) :
    (ofText text).lineText? text (row + 1) = some (lineText text (row + 1)) := by
  rw [lineText?, lineText, ofText, List.getElem?_toArray, List.getElem?_toArray,
    List.getElem?_cons_succ, Nat.add_sub_cancel, List.getD_eq_getElem?_getD]
  rcases row_cases 0 text row with ⟨beyond, none⟩ | ⟨before, piece, rest, split, found, start, next⟩
  · rw [beyond, none]
    rfl
  · have stop : stop? text (startsFrom 0 text)[row]? = some (Text.byteSize (before ++ piece)) := by
      rw [next, Nat.zero_add]
      split
      next last => rw [stop?, split, last, List.append_nil]
      next => rfl
    have written : Text.slice? text (Text.byteSize before) (Text.byteSize (before ++ piece))
        = some piece :=
      Text.slice?_eq_some_iff.mpr ⟨before, rest, split, rfl, rfl⟩
    rw [found, start, Nat.zero_add]
    simp only [stop, written, bind, Option.bind_some, pure, Option.getD_some]

/-! ## The positions of a text -/

/-- A position that is further on in the text is the later one. -/
theorem before_of_position? {text : List Char} {offset offset' : Nat} {p p' : Position}
    (h : (ofText text).position? text offset = some p)
    (h' : (ofText text).position? text offset' = some p') (order : offset < offset') :
    p.Before p' := by
  obtain ⟨before, rest, split, rfl, rfl⟩ := position?_eq_some_iff.mp h
  obtain ⟨before', rest', split', rfl, rfl⟩ := position?_eq_some_iff.mp h'
  rcases List.prefix_or_prefix_of_prefix ⟨rest, split.symm⟩ ⟨rest', split'.symm⟩ with
    ⟨more, rfl⟩ | ⟨more, rfl⟩
  · apply Position.before_after_append
    rintro rfl
    rw [List.append_nil] at order
    exact Nat.lt_irrefl _ order
  · rw [Text.byteSize_append] at order
    omega

/-- Every offset between two characters has a position, which counts the newlines before it and the
characters behind the last of them, and positions grow with the offset. A key that a scan finds has
the position at which its call starts and the text of this line, and points at its call. -/
theorem positions_faithful (text : List Char) :
    (∀ before rest, text = before ++ rest →
      (ofText text).position? text (Text.byteSize before)
        = some ⟨1 + before.count '\n', 1 + (Text.lastPiece before).length⟩) ∧
    (∀ offset offset' p p', (ofText text).position? text offset = some p →
      (ofText text).position? text offset' = some p' → offset < offset' → p.Before p') ∧
    (∀ bundle found, CallSite.scan bundle text = .ok found → ∀ o ∈ found,
      (∃ before rest opened, text = before ++ rest ∧ CallSite.OpensCall bundle rest opened ∧
        (ofText text).position? text (Text.byteSize before) = some o.position ∧
        (ofText text).lineText? text o.position.line = some o.sourceLine.toList) ∧
      CallSite.PointsAtCall text o) := by
  refine ⟨?_, fun offset offset' p p' => before_of_position?, ?_⟩
  · rintro before rest rfl
    rw [position?_byteSize, Position.after_eq, Nat.add_comm 1, Nat.add_comm 1]
  · intro bundle found scanned o inside
    have points := CallSite.pointsAtCall_of_mem_scan scanned inside
    obtain ⟨before, rest, opened, split, opens, position, line⟩ :=
      CallSite.exists_place_of_mem_scan scanned inside
    obtain ⟨row, -, number, -⟩ := points.line
    refine ⟨⟨before, rest, opened, split, opens, ?_, ?_⟩, points⟩
    · rw [split, position?_byteSize, position]
    · rw [line, String.toList_ofList, number, lineText?_eq]

/-- A call in the second line, behind a letter of two bytes. -/
theorem positions_faithful_umlaut :
    let text := "// \r\nü(Localization.lang(\"Save\"));\r\n".toList
    (ofText text).position? text 8 = some ⟨2, 3⟩ ∧
    ∃ o, CallSite.scan .lang text = .ok [o] ∧ CallSite.PointsAtCall text o ∧
      o.position = ⟨2, 3⟩ ∧ o.sourceLine = "ü(Localization.lang(\"Save\"));" := by
  have scanned : CallSite.scan .lang "// \r\nü(Localization.lang(\"Save\"));\r\n".toList
      = .ok [⟨⟨"Save"⟩, ⟨2, 3⟩, "ü(Localization.lang(\"Save\"));"⟩] := by decide
  obtain ⟨position, -, found⟩ :=
    positions_faithful "// \r\nü(Localization.lang(\"Save\"));\r\n".toList
  exact ⟨position "// \r\nü(".toList "Localization.lang(\"Save\"));\r\n".toList (by decide), _,
    scanned, (found _ _ scanned _ (by simp)).2, rfl, rfl⟩

end LineIndex

end LocaleKeys
