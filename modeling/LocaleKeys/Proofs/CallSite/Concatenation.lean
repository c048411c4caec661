import LocaleKeys.Proofs.CallSite.Passes
import LocaleKeys.Proofs.CallSite.Scan

/-!
# A scan of two texts put together

No call goes on behind the end of a statement, so a text that ends with one (`EndsStatement`) keeps
its calls when more text follows (`callsEverywhere_append`). A call that has its argument list keeps
it (`argumentList?_append`), and what is open elsewhere, a comment or a literal, is nothing that the
scan knows of. The newline at the end makes the following text start a line, so its calls are found
where they would be found alone, only further down. `scan_append` puts this together.
-/

namespace LocaleKeys

/-! ## Further down -/

/-- The position some lines further down. -/
def Position.down (n : Nat) (p : Position) : Position :=
  { p with line := p.line + n }

/-- The occurrence of a key some lines further down. -/
def KeyOccurrence.down (n : Nat) (o : KeyOccurrence) : KeyOccurrence :=
  { o with position := o.position.down n }

/-- The malformed call some lines further down. -/
def ExtractionError.down (n : Nat) (e : ExtractionError) : ExtractionError :=
  { e with position := e.position.down n }

namespace Position

theorem advance_down (n : Nat) (p : Position) (c : Char) :
    (p.down n).advance c = (p.advance c).down n := by
  by_cases hc : c = '\n'
  · simp only [advance, down, if_pos hc, Nat.add_right_comm]
  · simp only [advance, down, if_neg hc]

theorem line_foldl_advance (p : Position) (text : List Char) :
    (text.foldl advance p).line = p.line + text.count '\n' := by
  induction text generalizing p with
  | nil => rfl
  | cons c rest ih =>
    rw [List.foldl_cons, ih]
    by_cases hc : c = '\n'
    · have next : (p.advance c).line = p.line + 1 := by rw [advance, if_pos hc]
      rw [next, hc, List.count_cons_self]
      omega
    · have same : (p.advance c).line = p.line := by rw [advance, if_neg hc]
      rw [same, List.count_cons_of_ne hc]

/-- A newline at the end of a text begins the line behind it. -/
theorem after_concat_newline (text : List Char) :
    after (text ++ ['\n']) = start.down ((text ++ ['\n']).count '\n') := by
  have line : (after (text ++ ['\n'])).line = 1 + (text ++ ['\n']).count '\n' :=
    line_foldl_advance start _
  rw [after_append_singleton] at line ⊢
  exact congrArg (Position.mk · 1) line

end Position

theorem Text.firstPiece_append {text : List Char} (h : '\n' ∈ text) (more : List Char) :
    firstPiece (text ++ more) = firstPiece text := by
  induction text with
  | nil => exact absurd h List.not_mem_nil
  | cons c text ih =>
    by_cases hc : c = '\n'
    · simp [firstPiece, hc]
    · have later : '\n' ∈ text := by simpa [Ne.symm hc] using h
      have rest := ih later
      simp only [firstPiece] at rest
      simp [firstPiece, hc, rest]

namespace Cursor

/-- The cursor if more text follows. -/
def extend (more : List Char) (cursor : Cursor) : Cursor :=
  { cursor with fromLineStart := cursor.fromLineStart ++ more }

/-- The cursor some lines further down. -/
def down (n : Nat) (cursor : Cursor) : Cursor :=
  { cursor with position := cursor.position.down n }

/-- The cursor behind a text. -/
def advanceOver (cursor : Cursor) : List Char → Cursor
  | [] => cursor
  | c :: rest => (cursor.advance c rest).advanceOver rest

theorem advance_extend (cursor : Cursor) (c : Char) (rest more : List Char) :
    (cursor.extend more).advance c (rest ++ more) = (cursor.advance c rest).extend more := by
  by_cases hc : c = '\n'
  · simp only [advance, extend, if_pos hc]
  · simp only [advance, extend, if_neg hc]

theorem advance_down (cursor : Cursor) (n : Nat) (c : Char) (rest : List Char) :
    (cursor.down n).advance c rest = (cursor.advance c rest).down n := by
  simp only [advance, down, Position.advance_down]

theorem advanceOver_concat_newline (cursor : Cursor) (text : List Char) :
    cursor.advanceOver (text ++ ['\n'])
      = ⟨(text ++ ['\n']).foldl Position.advance cursor.position, []⟩ := by
  induction text generalizing cursor with
  | nil => rfl
  | cons c text ih => exact ih _

/-- Behind a text that ends with a newline a reader stands where it would start, only further
down. -/
theorem start_advanceOver_extend (text more : List Char) :
    ((start (text ++ ['\n'])).advanceOver (text ++ ['\n'])).extend more
      = (start more).down ((text ++ ['\n']).count '\n') := by
  have behind := Position.after_concat_newline text
  rw [Position.after] at behind
  rw [advanceOver_concat_newline, start, behind]
  rfl

/-- What follows the current line does not change it. -/
theorem line_extend {cursor : Cursor} (h : '\n' ∈ cursor.fromLineStart) (more : List Char) :
    (cursor.extend more).line = cursor.line := by
  rw [line, extend, Text.firstLine, Text.firstPiece_append h]
  rfl

end Cursor

namespace CallSite

/-! ## The calls -/

/-- The last line of the text ends with the mark that ends a statement or a block. -/
def EndsStatement (text : List Char) : Prop :=
  ∃ before mark, (mark = ';' ∨ mark = '}') ∧ text = before ++ [mark, '\n']

namespace Call

/-- The call if more text follows. -/
def extend (more : List Char) (call : Call) : Call :=
  ⟨call.cursor.extend more, call.text ++ more, call.opened ++ more⟩

/-- The call some lines further down. -/
def down (n : Nat) (call : Call) : Call :=
  { call with cursor := call.cursor.down n }

end Call

/-- No statement ends between the start of a call and its opening parenthesis. -/
theorem Opening.not_mem {bundle : Bundle} {matched : List Char} (h : Opening bundle matched)
    {mark : Char} (hm : mark = ';' ∨ mark = '}') : mark ∉ matched := by
  obtain ⟨a, b, c, spaces, rfl⟩ := h
  have space : Text.isSpace mark = false := by rcases hm with rfl | rfl <;> decide
  have word : mark ∉ className ∧ mark ≠ '.' ∧ mark ∉ bundle.method.toList ∧ mark ≠ '(' := by
    rcases hm with rfl | rfl <;> cases bundle <;> decide
  have gaps : mark ∉ a ++ b ++ c := by
    intro inside
    rw [spaces mark inside] at space
    exact absurd space (by simp)
  simp only [List.mem_append, List.mem_singleton, not_or] at gaps ⊢
  exact ⟨⟨⟨⟨⟨⟨word.1, gaps.1.1⟩, word.2.1⟩, gaps.1.2⟩, word.2.2.1⟩, gaps.2⟩, word.2.2.2⟩

/-- A call that begins before the end of a statement is opened before it. -/
theorem afterOpening?_append (bundle : Bundle) {text : List Char} {mark : Char}
    (hm : mark = ';' ∨ mark = '}') (inside : mark ∈ text) (more : List Char) :
    afterOpening? bundle (text ++ more) = (afterOpening? bundle text).map (· ++ more) := by
  ext opened
  rw [Option.map_eq_some_iff, afterOpening?_eq_some_iff]
  constructor
  · rintro ⟨matched, shape, split⟩
    rcases List.append_eq_append_iff.mp split with ⟨tail, rfl, -⟩ | ⟨tail, rfl, rfl⟩
    · exact absurd (List.mem_append_left tail inside) (shape.not_mem hm)
    · exact ⟨tail, afterOpening?_eq_some_iff.mpr ⟨matched, shape, rfl⟩, rfl⟩
  · rintro ⟨tail, found, rfl⟩
    obtain ⟨matched, shape, rfl⟩ := afterOpening?_eq_some_iff.mp found
    exact ⟨matched, shape, List.append_assoc ..⟩

/-- The calls of a text that ends a statement are still its calls when more text follows, and no
other call begins in it. -/
theorem callsEverywhere_append (bundle : Bundle) {mark : Char} (hm : mark = ';' ∨ mark = '}')
    (cursor : Cursor) (before more : List Char) :
    callsEverywhere bundle (cursor.extend more) (before ++ [mark, '\n'] ++ more)
      = (callsEverywhere bundle cursor (before ++ [mark, '\n'])).map (Call.extend more)
        ++ callsEverywhere bundle
            ((cursor.advanceOver (before ++ [mark, '\n'])).extend more) more := by
  induction before generalizing cursor with
  | nil =>
    have letter : mark ≠ 'L' := by rcases hm with rfl | rfl <;> decide
    have newline : '\n' ≠ 'L' := by decide
    have first := Cursor.advance_extend cursor mark ['\n'] more
    have second := Cursor.advance_extend (cursor.advance mark ['\n']) '\n' [] more
    simp only [List.singleton_append, List.nil_append] at first second
    simp only [List.nil_append, List.cons_append, callsEverywhere, Cursor.advanceOver,
      afterOpening?_eq_none letter, afterOpening?_eq_none newline, first, second, Option.map_none,
      Option.toList_none, List.map_nil]
  | cons c before ih =>
    have here : mark ∈ c :: (before ++ [mark, '\n']) := by simp
    have opens := afterOpening?_append bundle hm here more
    rw [List.cons_append, List.cons_append, callsEverywhere, callsEverywhere,
      Cursor.advance_extend, ih, ← List.cons_append, opens, List.map_append, List.append_assoc]
    cases afterOpening? bundle (c :: (before ++ [mark, '\n'])) <;> rfl

theorem callsEverywhere_down (bundle : Bundle) (n : Nat) (cursor : Cursor) (text : List Char) :
    callsEverywhere bundle (cursor.down n) text
      = (callsEverywhere bundle cursor text).map (Call.down n) := by
  induction text generalizing cursor with
  | nil => rfl
  | cons c rest ih =>
    rw [callsEverywhere, callsEverywhere, Cursor.advance_down, ih, List.map_append]
    cases afterOpening? bundle (c :: rest) <;> rfl

/-- The calls of two texts put together are those of the first and, further down, those of the
second. -/
theorem calls_append {bundle : Bundle} {first : List Char} (ends : EndsStatement first)
    (second : List Char) :
    calls bundle (first ++ second) = (calls bundle first).map (Call.extend second)
      ++ (calls bundle second).map (Call.down (first.count '\n')) := by
  obtain ⟨before, mark, hm, rfl⟩ := ends
  have seam : before ++ [mark, '\n'] = (before ++ [mark]) ++ ['\n'] := by simp
  have behind := Cursor.start_advanceOver_extend (before ++ [mark]) second
  rw [← seam] at behind
  have both := callsEverywhere_append bundle hm (.start (before ++ [mark, '\n'])) before second
  rw [behind, callsEverywhere_down] at both
  rw [calls_eq_callsEverywhere, calls_eq_callsEverywhere, calls_eq_callsEverywhere]
  exact both

/-! ## What the calls come to -/

/-- The closing parenthesis of a call does not depend on what follows it. -/
theorem argumentList?_append {text arguments : List Char} (h : argumentList? text = some arguments)
    (more : List Char) : argumentList? (text ++ more) = some arguments := by
  obtain ⟨items, rest, lexed, nest, rfl, rfl⟩ := exists_items h
  rw [List.append_assoc, List.cons_append]
  exact argumentsFrom_spell lexed nest [] (rest ++ more)

/-- A call that gives a key, or names nothing, does so when more text follows its line. -/
theorem Call.occurrence?_extend {call : Call} {found : Option KeyOccurrence}
    (h : call.occurrence? = .ok found) (line : '\n' ∈ call.cursor.fromLineStart)
    (more : List Char) : (call.extend more).occurrence? = .ok found := by
  cases list : argumentList? call.opened with
  | none =>
    rw [occurrence?, list] at h
    exact absurd h (by simp)
  | some arguments =>
    have same : argumentList? (call.extend more).opened = some arguments :=
      argumentList?_append list more
    have shown : (call.extend more).cursor.line = call.cursor.line := Cursor.line_extend line more
    rw [occurrence?, list] at h
    rw [occurrence?, same, shown]
    exact h

theorem Call.occurrence?_down (n : Nat) (call : Call) :
    (call.down n).occurrence? = match call.occurrence? with
      | .ok found => .ok (found.map (KeyOccurrence.down n))
      | .error e => .error (e.down n) := by
  unfold occurrence?
  have opened : (call.down n).opened = call.opened := rfl
  rw [opened]
  cases argumentList? call.opened with
  | none => rfl
  | some arguments =>
    cases fault : (Key.mk (String.ofList (firstLiteral arguments))).defect? with
    | some defect => simp only [fault]; rfl
    | none =>
      simp only [fault]
      split <;> rfl

theorem occurrences_append {list others : List Call} {found : List KeyOccurrence}
    (h : occurrences list = .ok found) :
    occurrences (list ++ others) = match occurrences others with
      | .ok found' => .ok (found ++ found')
      | .error e => .error e := by
  induction list generalizing found with
  | nil =>
    cases h
    rw [List.nil_append]
    cases occurrences others <;> rfl
  | cons call more ih =>
    rw [occurrences] at h
    cases first : call.occurrence? with
    | error e => simp [first] at h
    | ok o =>
      cases rest : occurrences more with
      | error e => simp [first, rest] at h
      | ok found' =>
        rw [first, rest] at h
        cases h
        rw [List.cons_append, occurrences, first, ih rest]
        cases occurrences others with
        | error e => rfl
        | ok _ => simp only [List.append_assoc]

theorem occurrences_extend {list : List Call} {found : List KeyOccurrence}
    (h : occurrences list = .ok found) (lines : ∀ call ∈ list, '\n' ∈ call.cursor.fromLineStart)
    (more : List Char) : occurrences (list.map (Call.extend more)) = .ok found := by
  induction list generalizing found with
  | nil => exact h
  | cons call list ih =>
    rw [occurrences] at h
    cases first : call.occurrence? with
    | error e => simp [first] at h
    | ok o =>
      cases rest : occurrences list with
      | error e => simp [first, rest] at h
      | ok found' =>
        rw [first, rest] at h
        have kept := Call.occurrence?_extend first (lines call (by simp)) more
        have others := ih rest fun c hc => lines c (by simp [hc])
        rw [List.map_cons, occurrences, kept, others]
        exact h

theorem occurrences_down (n : Nat) (list : List Call) :
    occurrences (list.map (Call.down n)) = match occurrences list with
      | .ok found => .ok (found.map (KeyOccurrence.down n))
      | .error e => .error (e.down n) := by
  induction list with
  | nil => rfl
  | cons call list ih =>
    rw [List.map_cons, occurrences, occurrences, Call.occurrence?_down, ih]
    cases call.occurrence? with
    | error e => rfl
    | ok found =>
      cases occurrences list with
      | error e => rfl
      | ok others => cases found <;> rfl

/-! ## The scan -/

/-- The line of a call in a text that ends with a newline has its end. -/
theorem newline_mem_of_mem_calls {bundle : Bundle} {text : List Char} (h : EndsStatement text)
    {call : Call} (hc : call ∈ calls bundle text) : '\n' ∈ call.cursor.fromLineStart := by
  obtain ⟨before, mark, -, rfl⟩ := h
  obtain ⟨passed, split, opens, stands⟩ := exists_passed_of_mem_calls hc
  obtain ⟨current, -, from_line, -⟩ := stands.line
  have nonempty : call.text ≠ [] := by
    obtain ⟨matched, shape, text⟩ := opens
    obtain ⟨tail, rfl, -⟩ := shape.exists_cons
    rw [text]
    exact List.cons_ne_nil _ _
  -- The call begins before the end of the text, and there is the newline.
  have last : call.text.getLast? = some '\n' := by
    have whole : (before ++ [mark, '\n']).getLast? = some '\n' := by simp
    rw [split, List.getLast?_append] at whole
    obtain ⟨c, hc⟩ := Option.ne_none_iff_exists'.mp (mt List.getLast?_eq_none_iff.mp nonempty)
    rw [hc] at whole ⊢
    exact whole
  rw [from_line, List.mem_append]
  exact .inr (List.mem_of_getLast? last)

/-- If the scan of a text that ends a statement comes to keys, the scan of it and more text comes to
these keys and to what the scan of the other text comes to, as many lines further down as the text
has. -/
theorem scan_append {bundle : Bundle} {first second : List Char} {found : List KeyOccurrence}
    (ends : EndsStatement first) (h : scan bundle first = .ok found) :
    scan bundle (first ++ second) = match scan bundle second with
      | .ok others => .ok (found ++ others.map (KeyOccurrence.down (first.count '\n')))
      | .error e => .error (e.down (first.count '\n')) := by
  have kept := occurrences_extend h (fun _ hc => newline_mem_of_mem_calls ends hc) second
  rw [scan, calls_append ends, occurrences_append kept, occurrences_down, scan]
  cases occurrences (calls bundle second) <;> rfl

/-- A comment that is left open, and a call with an argument list of its own behind it. -/
theorem scan_append_openComment :
    EndsStatement "/* Localization.lang(\"a b\");\n".toList ∧
    scan .lang "/* Localization.lang(\"a b\");\n".toList
      = .ok [⟨⟨"a b"⟩, ⟨1, 4⟩, "/* Localization.lang(\"a b\");"⟩] ∧
    scan .lang ("/* Localization.lang(\"a b\");\n".toList ++ "\n(\"Localization.lang(\"c".toList)
      = .error ⟨⟨3, 3⟩, .unbalancedParentheses "Localization.lang(\"c"⟩ := by
  have ends : EndsStatement "/* Localization.lang(\"a b\");\n".toList :=
    ⟨"/* Localization.lang(\"a b\")".toList, ';', .inl rfl, by decide⟩
  have first : scan .lang "/* Localization.lang(\"a b\");\n".toList
      = .ok [⟨⟨"a b"⟩, ⟨1, 4⟩, "/* Localization.lang(\"a b\");"⟩] := by rfl
  have second : scan .lang "\n(\"Localization.lang(\"c".toList
      = .error ⟨⟨2, 3⟩, .unbalancedParentheses "Localization.lang(\"c"⟩ := by rfl
  exact ⟨ends, first, by rw [scan_append ends first, second]; rfl⟩

end CallSite

end LocaleKeys
