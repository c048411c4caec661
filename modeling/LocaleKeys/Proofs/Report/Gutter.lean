import LocaleKeys.Report.Text

/-!
# Marks and carets of a report

The gutter of a report has room for every line number that is shown
(`length_digits_le_gutterWidth`), so the marks of an issue stand right of it in one column. Spaces
and digits take a column each, and nothing joins a space, so what is in front of a source line moves
it as a whole (`Text.displayWidth_append_space`) and the caret below stands in the column of the
issue. `shows_issueLines` puts this together for the lines of an issue.
-/

namespace LocaleKeys

namespace Text

/-! ## Columns -/

theorem foldr_extend_of_isPlain {front : List Char} (h : ∀ c ∈ front, isPlain c = true)
    (columns : Nat) :
    front.foldr Tail.extend ⟨columns, .plain, []⟩ = ⟨columns + front.length, .plain, []⟩ := by
  induction front with
  | nil => rfl
  | cons c front ih =>
    rw [List.forall_mem_cons] at h
    rw [List.foldr_cons, ih h.2, Tail.extend_plain h.1]
    rfl

theorem Tail.columns_refuse (tail : Tail) (form : Form) :
    (tail.refuse form).columns = tail.columns := by
  unfold refuse
  split
  · rfl
  · split <;> rfl

/-- A space is a character of its own, whatever follows it. -/
theorem Tail.extend_space (tail : Tail) :
    Tail.extend ' ' tail = ⟨tail.columns + 1, .plain, []⟩ := by
  have form : Form.emoji.isOf ' ' = false := by decide
  have plain : ' '.toNat ≤ lastPlain := by decide
  rw [extend, if_neg (by simp [form]), if_pos plain, extendPlain, if_neg (by decide),
    if_neg (by simp), add, columns_refuse]

/-- A text behind plain characters and a space takes the columns that it takes by itself. -/
theorem displayWidth_append_space {front : List Char} (h : ∀ c ∈ front, isPlain c = true)
    (text : List Char) :
    displayWidth (front ++ ' ' :: text) = front.length + 1 + displayWidth text := by
  rw [displayWidth, displayWidth, List.foldr_append, List.foldr_cons, Tail.extend_space,
    foldr_extend_of_isPlain h]
  simp only
  omega

end Text

namespace Report

/-! ## The gutter -/

/-- A larger number has at least as many digits. -/
theorem length_digits_le {m n : Nat} (h : m ≤ n) : (digits m).length ≤ (digits n).length := by
  have bound : n < 10 ^ (digits n).length :=
    (Nat.length_toDigits_le_iff (by decide) Nat.length_toDigits_pos).mp (Nat.le_refl _)
  exact (Nat.length_toDigits_le_iff (by decide) Nat.length_toDigits_pos).mpr
    (Nat.lt_of_le_of_lt h bound)

/-- Every line number that is shown fits into the gutter. -/
theorem length_digits_le_gutterWidth {issues : List Issue} {issue : Issue} (h : issue ∈ issues)
    (shown : issue.sourceLine?.isSome = true) :
    (digits issue.location.position.line).length ≤ gutterWidth issues := by
  have listed : issue.location.position.line ∈ shownLines issues :=
    List.mem_map_of_mem (List.mem_filter.mpr ⟨h, shown⟩)
  rw [gutterWidth]
  cases largest : (shownLines issues).max? with
  | none =>
    rw [List.max?_eq_none_iff.mp largest] at listed
    cases listed
  | some line => exact length_digits_le ((List.max?_eq_some_iff.mp largest).2 _ listed)

theorem length_padLeft {width : Nat} {text : List Char} (h : text.length ≤ width) :
    (padLeft width text).length = width := by
  rw [padLeft, List.length_append, List.length_replicate, Nat.sub_add_cancel h]

/-- The characters in front of the marks: those of line numbers, and spaces. -/
def IsGutter (text : List Char) : Prop :=
  ∀ c ∈ text, c = ' ' ∨ c.isDigit = true

theorem isGutter_padLeft_digits (width n : Nat) : IsGutter (padLeft width (digits n)) := by
  intro c inside
  rcases List.mem_append.mp inside with space | digit
  · exact .inl (List.eq_of_mem_replicate space)
  · exact .inr (Nat.isDigit_of_mem_toDigits (by decide) (by decide) digit)

theorem isGutter_padLeft_nil (width : Nat) : IsGutter (padLeft width []) := by
  intro c inside
  rw [padLeft, List.append_nil] at inside
  exact .inl (List.eq_of_mem_replicate inside)

theorem IsGutter.isPlain {text : List Char} (h : IsGutter text) :
    ∀ c ∈ text, Text.isPlain c = true := by
  intro c inside
  rcases h c inside with rfl | digit
  · decide
  · obtain ⟨-, most⟩ := Char.isDigit_iff_toNat.mp digit
    have apart : c ≠ '\n' := by
      rintro rfl
      exact absurd digit (by decide)
    have small : c.toNat ≤ Text.lastPlain := Nat.le_trans most (by decide)
    simp [Text.isPlain, small, apart]

/-- A mark of the gutter stands in the column of the line, counted from zero. -/
def MarkAt (column : Nat) (line : List Char) : Prop :=
  ∃ front mark rest, line = front ++ mark :: rest ∧ (mark = '|' ∨ mark = '=') ∧ IsGutter front ∧
    front.length = column ∧ Text.displayWidth front = column

theorem markAt_append {front : List Char} {mark : Char} (h : IsGutter front)
    (h' : mark = '|' ∨ mark = '=') (rest : List Char) :
    MarkAt (front.length + 1) (front ++ ' ' :: mark :: rest) := by
  have gutter : IsGutter (front ++ [' ']) := by
    intro c inside
    rcases List.mem_append.mp inside with digit | space
    · exact h c digit
    · exact .inl (List.mem_singleton.mp space)
  refine ⟨front ++ [' '], mark, rest, by simp, h', gutter, by simp, ?_⟩
  rw [Text.displayWidth_of_isPlain gutter.isPlain, List.length_append, List.length_singleton]

theorem markAt_marked (gutter : Nat) {mark : Char} (h : mark = '|' ∨ mark = '=')
    (rest : List Char) : MarkAt (gutter + 1) (marked false gutter mark rest) := by
  have line := markAt_append (isGutter_padLeft_nil gutter) h rest
  rw [length_padLeft (Nat.zero_le _)] at line
  simpa [marked, Style.paint_false] using line

/-! ## The lines of an issue -/

/-- The number of the line fills the gutter, and what is in front of the caret is as wide as what is
in front of the call on the source line above. -/
structure Aligned (gutter : Nat) (issue : Issue) (source number before : List Char) : Prop where
  digits : ∃ spaces, number = List.replicate spaces ' ' ++ digits issue.location.position.line
  fits : number.length = gutter
  blank : ∃ columns, before =
    List.replicate gutter ' ' ++ " | ".toList ++ List.replicate columns ' '
  width : Text.displayWidth before = Text.displayWidth (number ++ " | ".toList)
    + Text.displayWidth (source.take (issue.location.position.col - 1))
  width_line : Text.displayWidth before = Text.displayWidth (number ++ " | ".toList
    ++ source.take (issue.location.position.col - 1))

/-- The lines show the issue: two lines without marks come first, then the source line with a caret
below, if it is known, then remarks, and then an empty line. All marks stand right of the gutter. -/
def Shows (gutter : Nat) (issue : Issue) (lines : List (List Char)) : Prop :=
  ∃ head location shown remarks, lines = head :: location :: (shown ++ remarks) ++ [[]] ∧
    (∀ line ∈ shown ++ remarks, MarkAt (gutter + 1) line) ∧
    (issue.sourceLine? = none → shown = []) ∧
    ∀ source, issue.sourceLine? = some source → ∃ number before,
      shown = [List.replicate gutter ' ' ++ " |".toList, number ++ " | ".toList ++ source.toList,
        before ++ ['^']] ∧
      Aligned gutter issue source.toList number before

theorem sourceLines_eq (gutter : Nat) (issue : Issue) (source : List Char) :
    sourceLines false gutter issue source =
      [List.replicate gutter ' ' ++ " |".toList,
        padLeft gutter (digits issue.location.position.line) ++ " | ".toList ++ source,
        List.replicate gutter ' ' ++ " | ".toList
          ++ List.replicate (caretOffset issue source) ' ' ++ ['^']] := by
  simp [sourceLines, marked, Style.paint_false, padLeft]

/-- With room for the line number, the caret stands below the column of the issue. -/
theorem aligned_sourceLines {gutter : Nat} {issue : Issue} (source : List Char)
    (fits : (digits issue.location.position.line).length ≤ gutter) :
    Aligned gutter issue source (padLeft gutter (digits issue.location.position.line))
      (List.replicate gutter ' ' ++ " | ".toList
        ++ List.replicate (caretOffset issue source) ' ') := by
  have length := length_padLeft fits
  have line : ∀ text, Text.displayWidth (padLeft gutter (digits issue.location.position.line)
      ++ " | ".toList ++ text) = gutter + 3 + Text.displayWidth text := by
    intro text
    have front : ∀ c ∈ padLeft gutter (digits issue.location.position.line) ++ " |".toList,
        Text.isPlain c = true := by
      rw [List.forall_mem_append]
      exact ⟨(isGutter_padLeft_digits _ _).isPlain, List.all_eq_true.mp (by decide)⟩
    simpa [length] using Text.displayWidth_append_space front text
  have blank : Text.displayWidth (List.replicate gutter ' ' ++ " | ".toList
      ++ List.replicate (caretOffset issue source) ' ')
        = gutter + 3 + caretOffset issue source := by
    have spaces : ∀ n, ∀ c ∈ List.replicate n ' ', Text.isPlain c = true := by
      intro n c inside
      rw [List.eq_of_mem_replicate inside]
      rfl
    rw [Text.displayWidth_of_isPlain]
    · simp only [List.length_append, List.length_replicate]
      rfl
    · rw [List.forall_mem_append, List.forall_mem_append]
      exact ⟨⟨spaces _, List.all_eq_true.mp (by decide)⟩, spaces _⟩
  refine ⟨⟨_, rfl⟩, length, ⟨_, rfl⟩, ?_, ?_⟩
  · have bare := line []
    rw [List.append_nil] at bare
    rw [blank, bare]
    rfl
  · rw [blank, line]
    rfl

theorem markAt_sourceLines {gutter : Nat} {issue : Issue} (source : List Char)
    (fits : (digits issue.location.position.line).length ≤ gutter) :
    ∀ line ∈ sourceLines false gutter issue source, MarkAt (gutter + 1) line := by
  have numbered := markAt_append (isGutter_padLeft_digits gutter issue.location.position.line)
    (.inl rfl) (' ' :: source)
  rw [length_padLeft fits] at numbered
  simp only [sourceLines, List.forall_mem_cons]
  exact ⟨markAt_marked _ (.inl rfl) _, by simpa [Style.paint_false] using numbered,
    markAt_marked _ (.inl rfl) _, nofun⟩

/-- The remarks on an issue: its details, how to mend it and its usages. -/
def remarks (gutter : Nat) (issue : Issue) : List (List Char) :=
  (issue.details?.map fun text => remark false gutter .strong "note:" text.toList).toList
    ++ (issue.hint?.map fun text =>
      remark false gutter (.strongColor .cyan) "hint:" text.toList).toList
    ++ usageLines false gutter issue.usages

theorem markAt_remarks {gutter : Nat} {issue : Issue} :
    ∀ line ∈ remarks gutter issue, MarkAt (gutter + 1) line := by
  have each : ∀ style label text, MarkAt (gutter + 1) (remark false gutter style label text) :=
    fun _ _ _ => markAt_marked _ (.inr rfl) _
  intro line inside
  simp only [remarks, usageLines, List.mem_append, Option.mem_toList, Option.map_eq_some_iff,
    List.mem_map] at inside
  rcases inside with (⟨text, -, rfl⟩ | ⟨text, -, rfl⟩) | ⟨text, -, rfl⟩
  all_goals exact each _ _ _

/-- The lines of an issue show it if the gutter has room for its line number. -/
theorem shows_issueLines {gutter : Nat} {issue : Issue}
    (fits : issue.sourceLine?.isSome = true →
      (digits issue.location.position.line).length ≤ gutter) :
    Shows gutter issue (issueLines false gutter issue) := by
  have lines : ∀ shown,
      ((issue.sourceLine?.map (·.toList)).map (sourceLines false gutter issue)).getD [] = shown →
      issueLines false gutter issue = headLine false issue :: locationLine false issue
        :: (shown ++ remarks gutter issue) ++ [[]] := by
    rintro shown rfl
    simp [issueLines, remarks]
  cases known : issue.sourceLine? with
  | none =>
    refine ⟨_, _, [], _, lines [] (by rw [known]; rfl), markAt_remarks, fun _ => rfl, ?_⟩
    intro source same
    rw [known] at same
    cases same
  | some source =>
    have room := fits (by rw [known, Option.isSome_some])
    refine ⟨_, _, _, _, lines (sourceLines false gutter issue source.toList) (by rw [known]; rfl),
      ?_, ?_, ?_⟩
    · rw [List.forall_mem_append]
      exact ⟨markAt_sourceLines _ room, markAt_remarks⟩
    · intro unknown
      rw [known] at unknown
      cases unknown
    · intro source' same
      rw [known] at same
      cases same
      exact ⟨_, _, sourceLines_eq gutter issue source.toList, aligned_sourceLines _ room⟩

end Report

end LocaleKeys
