import LocaleKeys.Proofs.Properties.Escaping
import LocaleKeys.Proofs.Properties.KeyLine
import Mathlib.Data.List.Induction

/-!
# Resource files put together

Whether a logical line is open behind natural lines is told by the natural lines alone
(`isOpenBehind`): the last of them belongs to an entry and ends in an odd number of backslashes.
Behind natural lines some logical lines are complete and one may be open, and the reader goes on
from there as if nothing else had been read (`exists_gather_append`). So a text behind which no line
is open is read by itself in front of another one, which is read with its line numbers moved down,
and every definition is read in the same way from the line on that its number names
(`parse_composes`).
-/

namespace LocaleKeys

namespace Text

/-- The lines of a text that is cut behind a newline. -/
theorem lines_append_behind_newline (text rest : List Char) :
    lines (text ++ '\n' :: rest) = lines (text ++ ['\n']) ++ lines rest := by
  by_cases newline : '\n' ∈ text
  · obtain ⟨line, text', whole, fresh⟩ := List.eq_append_cons_of_mem newline
    have length : text.length = line.length + (text'.length + 1) := by simp [whole]
    have ih := lines_append_behind_newline text' rest
    rw [whole, List.append_assoc, List.append_assoc, List.cons_append, List.cons_append,
      lines_append_newline fresh, lines_append_newline fresh, ih, List.cons_append]
  · rw [lines_append_newline newline, lines_append_newline newline]
    rfl
termination_by text.length

theorem length_lines_concat_newline (text : List Char) :
    (lines (text ++ ['\n'])).length = text.count '\n' + 1 := by
  by_cases newline : '\n' ∈ text
  · obtain ⟨line, text', whole, fresh⟩ := List.eq_append_cons_of_mem newline
    have length : text.length = line.length + (text'.length + 1) := by simp [whole]
    have ih := length_lines_concat_newline text'
    rw [whole, List.append_assoc, List.cons_append, lines_append_newline fresh, List.length_cons,
      ih, List.count_append, List.count_eq_zero.mpr fresh, List.count_cons_self, Nat.zero_add]
  · rw [lines_append_newline newline, List.count_eq_zero.mpr newline]
    rfl
termination_by text.length

/-- A newline at the end of a text ends its last line or adds an empty one. -/
theorem lines_concat_newline {text : List Char} (h : text.getLast? ≠ some '\r') :
    lines (text ++ ['\n']) = lines text ∨ lines (text ++ ['\n']) = lines text ++ [[]] := by
  by_cases newline : '\n' ∈ text
  · obtain ⟨line, text', whole, fresh⟩ := List.eq_append_cons_of_mem newline
    have length : text.length = line.length + (text'.length + 1) := by simp [whole]
    have last : text'.getLast? ≠ some '\r' := by
      intro ret
      rw [whole, List.getLast?_append, List.getLast?_cons, ret] at h
      exact h rfl
    rw [whole, List.append_assoc, List.cons_append, lines_append_newline fresh,
      lines_append_newline fresh]
    rcases lines_concat_newline last with same | empty
    · exact .inl (congrArg _ same)
    · exact .inr (congrArg _ empty)
  · rw [lines_append_newline newline, dropReturn_eq_self h]
    rcases List.eq_nil_or_concat text with rfl | ⟨_, _, rfl⟩
    · exact .inr rfl
    · exact .inl (lines_singleton newline (by simp)).symm
termination_by text.length

/-- A place between two lines is a place in the text. -/
theorem exists_append_of_lines {text : List Char} {earlier later : List (List Char)}
    (h : lines text = earlier ++ later) (nonempty : later ≠ []) :
    ∃ before after, text = before ++ after ∧ (before = [] ∨ before.getLast? = some '\n') ∧
      lines before = earlier ∧ lines after = later ∧ before.count '\n' = earlier.length := by
  induction earlier generalizing text with
  | nil => exact ⟨[], text, rfl, .inl rfl, rfl, h, rfl⟩
  | cons first earlier ih =>
    by_cases newline : '\n' ∈ text
    · obtain ⟨line, rest, rfl, fresh⟩ := List.eq_append_cons_of_mem newline
      rw [lines_append_newline fresh, List.cons_append, List.cons.injEq] at h
      obtain ⟨rfl, h⟩ := h
      obtain ⟨before, after, rfl, last, lines_eq, lines_eq', count⟩ := ih h
      refine ⟨line ++ '\n' :: before, after, by simp, .inr ?_, ?_, lines_eq', ?_⟩
      · rcases last with rfl | last
        · simp
        · rw [List.getLast?_append, List.getLast?_cons, last]
          rfl
      · rw [lines_append_newline fresh, lines_eq]
      · rw [List.count_append, List.count_eq_zero.mpr fresh, List.count_cons_self, count,
          List.length_cons, Nat.zero_add]
    · -- A text without a newline has at most one line.
      exfalso
      have short : (lines text).length ≤ 1 := by
        rcases List.eq_nil_or_concat text with rfl | ⟨_, _, rfl⟩
        · decide
        · exact Nat.le_of_eq (congrArg List.length (lines_singleton newline (by simp)))
      have behind := List.length_pos_of_ne_nil nonempty
      rw [h, List.length_append, List.length_cons] at short
      omega

end Text

namespace Properties

namespace LogicalLine

/-! ## Backslashes at the end -/

theorem continues_concat_backslash (text : List Char) :
    continues (text ++ ['\\']) = !continues text := by
  simp only [continues, List.reverse_append, List.reverse_singleton, List.singleton_append]
  rw [List.takeWhile_cons_of_pos (by decide), List.length_cons]
  rcases Nat.mod_two_eq_zero_or_one (text.reverse.takeWhile (· == '\\')).length with even | odd
  · rw [Nat.add_mod, even]
    rfl
  · rw [Nat.add_mod, odd]
    rfl

/-- What follows an even number of backslashes tells alone how the whole ends. -/
theorem continues_append {before : List Char} (h : continues before = false) (text : List Char) :
    continues (before ++ text) = continues text := by
  induction text using List.reverseRecOn with
  | nil => rw [List.append_nil, h]; rfl
  | append_singleton text c ih =>
    rw [← List.append_assoc]
    by_cases backslash : c = '\\'
    · rw [backslash, continues_concat_backslash, continues_concat_backslash, ih]
    · rw [continues_concat backslash, continues_concat backslash]

theorem continues_dropWhile_isBlank (natural : List Char) :
    continues (natural.dropWhile isBlank) = continues natural := by
  induction natural with
  | nil => rfl
  | cons c natural ih =>
    rw [List.dropWhile_cons]
    split
    · next blank =>
      have other : c ≠ '\\' := by
        rintro rfl
        cases blank
      rw [ih, continues_cons other]
    · rfl

/-- Without the backslash that continues it, a text ends in an even number of them. -/
theorem continues_dropLast {text : List Char} (h : continues text = true) :
    continues text.dropLast = false := by
  rcases List.eq_nil_or_concat text with rfl | ⟨text, c, rfl⟩
  · cases h
  · rw [List.concat_eq_append] at h ⊢
    by_cases backslash : c = '\\'
    · rw [backslash, continues_concat_backslash, Bool.not_eq_true'] at h
      rw [List.dropLast_concat, h]
    · rw [continues_concat backslash] at h
      cases h

/-! ## Open lines -/

/-- A natural line belongs to an entry: it goes on with a line that is open, or opens one. -/
def inEntry (isOpen : Bool) (natural : List Char) : Bool :=
  isOpen || !isIgnored (natural.dropWhile isBlank)

/-- Whether a line is open behind one more natural line. -/
def staysOpen (isOpen : Bool) (natural : List Char) : Bool :=
  inEntry isOpen natural && continues natural

/-- A logical line is open behind the first natural lines of a text: the last of them belongs to an
entry and ends in an odd number of backslashes. -/
def isOpenBehind (naturals : List (List Char)) : Bool :=
  naturals.foldl staysOpen false

theorem isOpenBehind_concat (naturals : List (List Char)) (natural : List Char) :
    isOpenBehind (naturals ++ [natural]) = staysOpen (isOpenBehind naturals) natural := by
  rw [isOpenBehind, List.foldl_append]
  rfl

/-- What may be open in front of a natural line of the given number. -/
def OpenedBefore (line : Nat) (opened : Option LogicalLine) : Prop :=
  ∀ o ∈ opened, continues o.text = false ∧ o.line < line

theorem openedBefore_none (line : Nat) : OpenedBefore line none := nofun

/-- The logical line that the next natural line belongs to, up to there. -/
def upTo (line : Nat) (opened : Option LogicalLine) : LogicalLine :=
  opened.getD ⟨[], line⟩

theorem upTo_some (line : Nat) (opened : LogicalLine) : upTo line (some opened) = opened := rfl

theorem OpenedBefore.upTo {line : Nat} {opened : Option LogicalLine} (h : OpenedBefore line opened) :
    continues (upTo line opened).text = false ∧ (upTo line opened).line < line + 1 := by
  cases opened with
  | none => exact ⟨rfl, Nat.lt_succ_self line⟩
  | some o => exact ⟨(h o rfl).1, Nat.lt_succ_of_lt (h o rfl).2⟩

theorem gather_inEntry {line : Nat} {opened : Option LogicalLine} {natural : List Char}
    (h : inEntry opened.isSome natural = true) (more : List (List Char)) :
    gather line opened (natural :: more) =
      if continues ((upTo line opened).text ++ natural.dropWhile isBlank) then
        gather (line + 1) (some ⟨((upTo line opened).text ++ natural.dropWhile isBlank).dropLast,
          (upTo line opened).line⟩) more
      else
        ⟨(upTo line opened).text ++ natural.dropWhile isBlank, (upTo line opened).line⟩
          :: gather (line + 1) none more := by
  cases opened with
  | none =>
    have visible : ¬ isIgnored (natural.dropWhile isBlank) = true := by
      simpa [inEntry] using h
    simp only [gather, if_neg visible]
    rfl
  | some o => rfl

theorem gather_of_not_inEntry {line : Nat} {opened : Option LogicalLine} {natural : List Char}
    (h : inEntry opened.isSome natural = false) (more : List (List Char)) :
    gather line opened (natural :: more) = gather (line + 1) none more := by
  cases opened with
  | none =>
    have ignored : isIgnored (natural.dropWhile isBlank) = true := by
      simpa [inEntry] using h
    simp only [gather, if_pos ignored]
  | some o => cases h

/-- One natural line completes a logical line, leaves it open, or belongs to none. -/
theorem exists_gather_cons {line : Nat} {opened : Option LogicalLine} (h : OpenedBefore line opened)
    (natural : List Char) :
    ∃ complete opened', OpenedBefore (line + 1) opened' ∧
      opened'.isSome = staysOpen opened.isSome natural ∧
      (complete ++ opened'.toList).length ≤ 1 ∧
      (∀ logical ∈ complete ++ opened'.toList, logical.line = (upTo line opened).line) ∧
      ∀ more, gather line opened (natural :: more) = complete ++ gather (line + 1) opened' more := by
  obtain ⟨even, first⟩ := h.upTo
  have parity := continues_append even (natural.dropWhile isBlank)
  rw [continues_dropWhile_isBlank] at parity
  cases entry : inEntry opened.isSome natural with
  | false =>
    refine ⟨[], none, nofun, ?_, Nat.zero_le _, nofun, gather_of_not_inEntry entry⟩
    rw [staysOpen, entry]
    rfl
  | true =>
    cases odd : continues natural with
    | true =>
      rw [odd] at parity
      refine ⟨[], some ⟨((upTo line opened).text ++ natural.dropWhile isBlank).dropLast,
        (upTo line opened).line⟩, ?_, ?_, Nat.le_refl _, by simp, fun more => ?_⟩
      · rintro _ ⟨⟩
        exact ⟨continues_dropLast parity, first⟩
      · rw [staysOpen, entry, odd]
        rfl
      · rw [gather_inEntry entry, if_pos parity]
        rfl
    | false =>
      rw [odd] at parity
      refine ⟨[⟨(upTo line opened).text ++ natural.dropWhile isBlank, (upTo line opened).line⟩],
        none, nofun, ?_, Nat.le_refl _, by simp, fun more => ?_⟩
      · rw [staysOpen, entry, odd]
        rfl
      · rw [gather_inEntry entry, if_neg (by rw [parity]; decide)]
        rfl

/-- Behind natural lines some logical lines are complete, one may be open, and what follows is
gathered from there. -/
theorem exists_gather_append {line : Nat} {opened : Option LogicalLine}
    (h : OpenedBefore line opened) (naturals : List (List Char)) :
    ∃ complete opened', OpenedBefore (line + naturals.length) opened' ∧
      opened'.isSome = naturals.foldl staysOpen opened.isSome ∧
      (∀ logical ∈ complete, logical.line < line + naturals.length) ∧
      ∀ more, gather line opened (naturals ++ more) =
        complete ++ gather (line + naturals.length) opened' more := by
  induction naturals generalizing line opened with
  | nil => exact ⟨[], opened, h, rfl, nofun, fun more => rfl⟩
  | cons natural naturals ih =>
    obtain ⟨complete, opened₁, before, isOpen, -, lines, here⟩ := exists_gather_cons h natural
    obtain ⟨complete', opened₂, before', isOpen', lines', behind⟩ := ih before
    have length : line + (natural :: naturals).length = line + 1 + naturals.length := by
      rw [List.length_cons]
      omega
    rw [length]
    refine ⟨complete ++ complete', opened₂, before', ?_, ?_, fun more => ?_⟩
    · rw [isOpen', isOpen]
      rfl
    · intro logical inside
      rcases List.mem_append.mp inside with inside | inside
      · rw [lines logical (List.mem_append_left _ inside)]
        exact Nat.lt_of_lt_of_le h.upTo.2 (Nat.le_add_right _ _)
      · exact lines' logical inside
    · rw [List.cons_append, here, behind, List.append_assoc]

/-- An empty line at the end adds nothing. -/
theorem gather_concat_empty {line : Nat} {opened : Option LogicalLine} (h : OpenedBefore line opened)
    (naturals : List (List Char)) :
    gather line opened (naturals ++ [[]]) = gather line opened naturals := by
  obtain ⟨complete, opened', before, -, -, behind⟩ := exists_gather_append h naturals
  have alone := behind []
  rw [List.append_nil] at alone
  rw [behind, alone]
  congr 1
  cases opened' with
  | none => rfl
  | some o => simp [gather, (before o rfl).1]

/-- Natural lines behind which nothing is open are gathered by themselves. -/
theorem gather_append_of_not_open {earlier : List (List Char)} (h : isOpenBehind earlier = false)
    (later : List (List Char)) :
    gather 1 none (earlier ++ later) =
      gather 1 none earlier ++ (gather 1 none later).map (relined (· + earlier.length)) := by
  obtain ⟨complete, opened, -, isOpen, -, behind⟩ :=
    exists_gather_append (openedBefore_none 1) earlier
  obtain rfl : opened = none := by
    rw [← Option.not_isSome_iff_eq_none, isOpen]
    exact Bool.eq_false_iff.mp h
  have alone := behind []
  rw [List.append_nil, gather, Option.toList_none, List.append_nil] at alone
  rw [behind, alone, ← gather_relined (fun _ _ => rfl) none later]
  rfl

/-- The first logical line that is gathered is the one that was open, if there was one, and every
other begins at a natural line in front of which nothing is open. -/
theorem mem_gather_cases {line : Nat} {opened : Option LogicalLine} (h : OpenedBefore line opened)
    {naturals : List (List Char)} {logical : LogicalLine}
    (inside : logical ∈ gather line opened naturals) :
    (∃ o more, opened = some o ∧ logical.line = o.line ∧
      gather line opened naturals = logical :: more) ∨
    ∃ earlier later more, naturals = earlier ++ later ∧
      earlier.foldl staysOpen opened.isSome = false ∧ logical.line = line + earlier.length ∧
      gather (line + earlier.length) none later = logical :: more := by
  induction naturals generalizing line opened with
  | nil =>
    cases opened with
    | none => cases inside
    | some o =>
      obtain rfl : logical = o := by simpa [gather] using inside
      exact .inl ⟨logical, [], rfl, rfl, rfl⟩
  | cons natural naturals ih =>
    obtain ⟨complete, opened', before, isOpen, single, lines, whole⟩ := exists_gather_cons h natural
    have whole := whole naturals
    -- The first one goes on with what is open or begins right here.
    have first : ∀ more, logical.line = (upTo line opened).line →
        gather line opened (natural :: naturals) = logical :: more →
        (∃ o more, opened = some o ∧ logical.line = o.line ∧
          gather line opened (natural :: naturals) = logical :: more) ∨
        ∃ earlier later more, natural :: naturals = earlier ++ later ∧
          earlier.foldl staysOpen opened.isSome = false ∧ logical.line = line + earlier.length ∧
          gather (line + earlier.length) none later = logical :: more := by
      intro more number begins
      cases opened with
      | none => exact .inr ⟨[], natural :: naturals, more, rfl, rfl, number, begins⟩
      | some o => exact .inl ⟨o, more, rfl, number, begins⟩
    rw [whole, List.mem_append] at inside
    rcases inside with inside | inside
    · obtain ⟨rfl, rfl⟩ : complete = [logical] ∧ opened' = none := by
        cases complete with
        | nil => cases inside
        | cons c complete =>
          rw [List.length_append, List.length_cons] at single
          obtain ⟨none, last⟩ : complete.length = 0 ∧ opened'.toList.length = 0 := by omega
          obtain rfl := List.eq_nil_of_length_eq_zero none
          rw [List.mem_singleton] at inside
          cases opened' with
          | none => exact ⟨by rw [inside], rfl⟩
          | some o => cases last
      exact first _ (lines logical (by simp)) whole
    · rcases ih before inside with ⟨o, more, rfl, number, begins⟩ |
        ⟨earlier, later, more, rfl, closed, number, begins⟩
      · obtain rfl : complete = [] := by
          rw [List.length_append] at single
          exact List.eq_nil_of_length_eq_zero (by simpa using single)
        rw [lines o (by simp)] at number
        exact first more number (whole.trans begins)
      · have length : line + 1 + earlier.length = line + (natural :: earlier).length := by
          rw [List.length_cons]
          omega
        rw [length] at number begins
        rw [isOpen] at closed
        exact .inr ⟨natural :: earlier, later, more, rfl, closed, number, begins⟩

/-- A logical line of a text begins at one of its natural lines, in front of which nothing is
open. -/
theorem exists_of_mem_ofText {text : List Char} {logical : LogicalLine} (h : logical ∈ ofText text) :
    ∃ earlier later more, Text.lines text = earlier ++ later ∧ isOpenBehind earlier = false ∧
      logical.line = earlier.length + 1 ∧ gather 1 none later = { logical with line := 1 } :: more := by
  rcases mem_gather_cases (openedBefore_none 1) h with ⟨_, _, impossible, -⟩ |
    ⟨earlier, later, more, split, closed, number, begins⟩
  · cases impossible
  · have moved : gather (1 + earlier.length) none later =
        (gather 1 none later).map (relined (· + earlier.length)) :=
      gather_relined (fun _ _ => rfl) none later
    rw [begins] at moved
    obtain ⟨first, rest, split', same, -⟩ := List.map_eq_cons_iff.mp moved.symm
    refine ⟨earlier, later, rest, split, closed, by omega, ?_⟩
    rw [split']
    subst same
    have one : first.line = 1 := by
      have number : first.line + earlier.length = 1 + earlier.length := number
      omega
    rw [← one]
    rfl

end LogicalLine

open LogicalLine (isOpenBehind continues ofText gather gather_append_of_not_open)

/-! ## Texts put together -/

/-- The natural line is a comment, if no entry goes on with it. -/
def IsComment (natural : List Char) : Prop :=
  ∃ c ∈ ['#', '!'], (natural.dropWhile isBlank).head? = some c

/-- No entry goes on behind the text: the last of its lines, if it has any, is a comment that no
entry goes on with or ends in an even number of backslashes. -/
def IsComplete (text : List Char) : Prop :=
  ∀ earlier last, Text.lines text = earlier ++ [last] →
    (IsComment last ∧ isOpenBehind earlier = false) ∨ continues last = false

theorem IsComplete.not_open {text : List Char} (h : IsComplete text) :
    isOpenBehind (Text.lines text) = false := by
  rcases List.eq_nil_or_concat (Text.lines text) with none | ⟨earlier, last, split⟩
  · rw [none]
    rfl
  · rw [List.concat_eq_append] at split
    rw [split, LogicalLine.isOpenBehind_concat, LogicalLine.staysOpen]
    rcases h earlier last split with ⟨⟨c, mark, head⟩, closed⟩ | even
    · obtain ⟨rest, whole⟩ := List.head?_eq_some_iff.mp head
      rw [closed, LogicalLine.inEntry, whole]
      simp only [List.mem_cons, List.not_mem_nil, or_false] at mark
      rcases mark with rfl | rfl <;> rfl
    · rw [even, Bool.and_false]

/-- The definition begins on the line that its number names: no entry goes on with that line, and
the text from there on is read with the definition first, on its first line. -/
def BeginsOnItsLine (text : List Char) (entry : Entry) : Prop :=
  ∃ before after more, text = before ++ after ∧ (before = [] ∨ before.getLast? = some '\n') ∧
    isOpenBehind (Text.lines before) = false ∧ entry.line = before.count '\n' + 1 ∧
    parse after = .ok ({ entry with line := 1 } :: more)

/-- Texts with a newline between them are read as two lists of logical lines. -/
theorem ofText_append_newline {a : List Char} (last : a.getLast? ≠ some '\r') (h : IsComplete a)
    (b : List Char) :
    ofText (a ++ '\n' :: b) =
      ofText a ++ (ofText b).map (.relined (· + (a.count '\n' + 1))) := by
  have length := Text.length_lines_concat_newline a
  have closed := h.not_open
  rw [ofText, Text.lines_append_behind_newline]
  rcases Text.lines_concat_newline last with same | empty
  · rw [same] at length ⊢
    rw [gather_append_of_not_open closed, length]
    rfl
  · rw [empty] at length ⊢
    have closed' : isOpenBehind (Text.lines a ++ [[]]) = false := by
      rw [LogicalLine.isOpenBehind_concat, closed]
      rfl
    rw [gather_append_of_not_open closed', length, LogicalLine.gather_concat_empty (LogicalLine.openedBefore_none 1)]
    rfl

/-- A text is read in front of another one as it is read alone, and the other one as it is read
alone, further down. -/
theorem parse_append_newline {a : List Char} (last : a.getLast? ≠ some '\r') (h : IsComplete a)
    (b : List Char) :
    parse (a ++ '\n' :: b) = do
      let entries ← parse a
      let more ← relined (· + (a.count '\n' + 1)) (parse b)
      return entries ++ more := by
  rw [parse, ofText_append_newline last h, List.mapM_append, mapM_ofLine?_relined]
  rfl

/-- A definition is read in the same way from its line on. -/
theorem beginsOnItsLine_of_mem_parse {text : List Char} {entries : List Entry}
    (parsed : parse text = .ok entries) {entry : Entry} (found : entry ∈ entries) :
    BeginsOnItsLine text entry := by
  obtain ⟨logical, inside, read⟩ := exists_of_mem_results parsed found
  obtain ⟨earlier, later, more, split, closed, number, begins⟩ :=
    LogicalLine.exists_of_mem_ofText inside
  have nonempty : later ≠ [] := by
    rintro rfl
    cases begins
  obtain ⟨before, after, rfl, last, lines_eq, lines_eq', count⟩ :=
    Text.exists_append_of_lines split nonempty
  have whole : ∃ entries, parse after = .ok entries := by
    rw [parse, exists_mapM_eq_ok_iff]
    intro item inside
    -- The item stands in the whole text as well, further down.
    have below : item.relined (· + earlier.length) ∈ ofText (before ++ after) := by
      rw [ofText, split, gather_append_of_not_open closed, ← lines_eq']
      exact List.mem_append_right _ (List.mem_map_of_mem inside)
    obtain ⟨result, sound⟩ := exists_mapM_eq_ok_iff.mp ⟨entries, parsed⟩ _ below
    rw [Entry.ofLine?_relined] at sound
    cases alone : Entry.ofLine? item with
    | error e =>
      rw [alone] at sound
      cases sound
    | ok result => exact ⟨result, rfl⟩
  obtain ⟨entries', parsed'⟩ := whole
  have first : Entry.ofLine? { logical with line := 1 } = .ok { entry with line := 1 } := by
    have moved : Entry.ofLine? (logical.relined fun _ => 1) = _ := Entry.ofLine?_relined
    rw [read] at moved
    exact moved
  have results := mapM_eq_ok_iff.mp parsed'
  rw [ofText, lines_eq', begins, List.forall₂_cons_left_iff] at results
  obtain ⟨entry', more', same, -, rfl⟩ := results
  cases first.symm.trans same
  refine ⟨before, after, more', rfl, last, ?_, ?_, parsed'⟩
  · rw [lines_eq]
    exact closed
  · rw [(Entry.ofLine?_eq_ok read).2, number, count]

/-- Reading composes: a text that does not end in a carriage return, and behind which no entry goes
on, is read in front of another one as it is read alone, and the other one as it is read alone with
every line number moved down; if the first cannot be read, the whole fails with the same line. The
definitions of any text have increasing line numbers, and each begins on its line. -/
theorem parse_composes (a b : List Char) :
    (a.getLast? ≠ some '\r' → IsComplete a →
      parse (a ++ '\n' :: b) = do
        let entries ← parse a
        let more ← relined (· + (a.count '\n' + 1)) (parse b)
        return entries ++ more) ∧
    ∀ entries, parse a = .ok entries →
      entries.Pairwise (·.line < ·.line) ∧ ∀ entry ∈ entries, BeginsOnItsLine a entry :=
  ⟨fun last complete => parse_append_newline last complete b, fun _ parsed =>
    ⟨pairwise_line_of_parse parsed, fun _ found => beginsOnItsLine_of_mem_parse parsed found⟩⟩

/-- A comment that ends in a backslash, and an entry on two lines in front of it. -/
theorem parse_composes_comment :
    IsComplete "a=1\\\n  2\n# b\\".toList ∧
      parse ("a=1\\\n  2\n# b\\".toList ++ '\n' :: "c=3".toList) =
        .ok [⟨"a".toList, "12".toList, 1⟩, ⟨"c".toList, "3".toList, 4⟩] := by
  have complete : IsComplete "a=1\\\n  2\n# b\\".toList := by
    intro earlier last split
    have lines : Text.lines "a=1\\\n  2\n# b\\".toList =
        ["a=1\\".toList, "  2".toList] ++ ["# b\\".toList] := by decide
    obtain ⟨rfl, same⟩ := List.append_inj' (split.symm.trans lines) rfl
    cases same
    exact .inl ⟨⟨'#', by decide, by decide⟩, by decide⟩
  exact ⟨complete, ((parse_composes _ _).1 (by decide) complete).trans (by decide)⟩

end Properties
end LocaleKeys
