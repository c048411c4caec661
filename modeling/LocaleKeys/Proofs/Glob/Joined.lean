import LocaleKeys.Proofs.Glob.Search

/-!
# A pattern behind a path

The path becomes part of the pattern. If it has no character that a pattern gives a meaning to
(`IsPlain`), each of its parts is a component that stands for itself, and the components of the
pattern follow them as they are (`componentsOf_join`).
-/

namespace LocaleKeys.Glob

/-- No character of the text has a meaning in a pattern. -/
def IsPlain (text : List Char) : Prop :=
  ∀ c ∈ text, c ≠ '*' ∧ c ≠ '?' ∧ c ≠ '['

theorem tokensFrom_plain_append {text : List Char} (plain : IsPlain text) (tokens : List Token)
    (position : Nat) (before : Option Char) (rest : List Char) :
    tokensFrom none tokens position before (text ++ rest) =
      tokensFrom none ((text.map .literal).reverse ++ tokens) (position + text.length)
        (text.getLast?.or before) rest := by
  induction text generalizing tokens position before with
  | nil => rfl
  | cons c text ih =>
    obtain ⟨⟨star, question, bracket⟩, behind⟩ := List.forall_mem_cons.mp plain
    have first : tokensFrom none tokens position before (c :: (text ++ rest)) =
        tokensFrom none (.literal c :: tokens) (position + 1) (some c) (text ++ rest) := by
      rw [tokensFrom]
      all_goals simp_all
    rw [List.cons_append, first, ih behind]
    congr 1
    · simp
    · rw [List.length_cons]
      omega
    · rw [List.getLast?_cons]
      cases text.getLast? <;> rfl

theorem parse_of_isPlain {text : List Char} (plain : IsPlain text) :
    Pattern.parse text = .ok ⟨text.map .literal⟩ := by
  have read := tokensFrom_plain_append plain [] 0 none []
  rw [List.append_nil] at read
  rw [Pattern.parse, read]
  simp [tokensFrom, Except.map]

theorem ofPattern_literal (name : List Char) :
    Component.ofPattern ⟨name.map .literal⟩ = .plain name := by
  have other : name.map Token.literal ≠ [.anyComponents] := by
    cases name <;> simp
  rw [Component.ofPattern, if_neg other, plainText?_eq_some_iff.mpr rfl]

/-- Whether a text is a pattern depends on what stands before a star, on the text of a class that is
still open, and on nothing else that has been read. -/
theorem isOk_tokensFrom_congr (opened : Option OpenClass) {tokens tokens' : List Token}
    {position position' : Nat} {before before' : Option Char} {text : List Char}
    (start : Nat) (negated : Bool) (stars : endsComponent before = endsComponent before') :
    (tokensFrom opened tokens position before text).isOk =
      (tokensFrom (opened.map fun opened => ⟨start, negated, opened.text⟩) tokens' position' before'
        text).isOk := by
  fun_induction tokensFrom opened tokens position before text
    generalizing tokens' position' before' start negated with
  | case1 => rfl
  | case2 => rfl
  | case3 tokens position before c rest opened ends =>
    rename_i ih
    rw [Option.map_some, tokensFrom, if_pos ends]
    exact ih start negated rfl
  | case4 tokens position before c rest opened inside =>
    rename_i ih
    rw [Option.map_some, tokensFrom, if_neg inside]
    exact ih start negated rfl
  | case5 tokens position before rest ih =>
    rw [Option.map_none, tokensFrom]
    exact ih start negated rfl
  | case6 => rfl
  | case7 tokens position before ends =>
    rw [Option.map_none, tokensFrom, if_pos (stars ▸ ends)]
    rfl
  | case8 tokens position before ends rest _ ih =>
    rw [Option.map_none, tokensFrom, if_pos (stars ▸ ends)]
    exact ih start negated rfl
  | case9 tokens position before rest _ ends =>
    rw [Option.map_none, tokensFrom, if_pos (stars ▸ ends)]
    · rfl
    all_goals assumption
  | case10 tokens position before rest other inside =>
    have inside' : ¬ endsComponent before' = true := stars ▸ inside
    rw [Option.map_none, tokensFrom.eq_def]
    simp [inside', Except.isOk, Except.toBool]
  | case11 tokens position before rest _ _ ih =>
    rw [Option.map_none, tokensFrom]
    · exact ih start negated rfl
    all_goals assumption
  | case12 tokens position before rest ih =>
    rw [Option.map_none, tokensFrom]
    exact ih position' true rfl
  | case13 tokens position before rest _ ih =>
    rw [Option.map_none, tokensFrom]
    · exact ih position' false rfl
    · assumption
  | case14 tokens position before c rest _ _ _ _ _ _ ih =>
    rw [Option.map_none, tokensFrom]
    · exact ih start negated rfl
    all_goals assumption

theorem isOk_parse (text : List Char) :
    (Pattern.parse text).isOk = (tokensFrom none [] 0 none text).isOk := by
  rw [Pattern.parse]
  cases tokensFrom none [] 0 none text <;> rfl

theorem isPlain_gap (path : Path) : IsPlain path.gap := by
  unfold Path.gap
  split
  · exact fun c inside => absurd inside List.not_mem_nil
  · simp [IsPlain]

theorem getLast?_gap (path : Path) : (path.chars ++ path.gap).getLast? = some '/' := by
  unfold Path.gap
  split
  · next slash => rw [List.append_nil, slash]
  · rw [List.getLast?_append]
    rfl

theorem componentsOf_eq_ok_iff {text : List Char} {components : List Component} :
    componentsOf text = .ok components ↔
      (Pattern.parse text).isOk = true ∧ Reads (patternParts text) components := by
  constructor
  · intro h
    refine ⟨?_, reads_of_componentsOf h⟩
    rw [componentsOf] at h
    cases whole : Pattern.parse text with
    | error e => simp [whole, bind, Except.bind] at h
    | ok pattern => rfl
  · rintro ⟨whole, patterns, parsed, rfl⟩
    rw [componentsOf]
    cases read : Pattern.parse text with
    | error e => simp [read, Except.isOk, Except.toBool] at whole
    | ok pattern => simp [mapM_eq_ok_iff.mpr parsed, bind, Except.bind, pure, Except.pure]

/-- Plain parts in front are components that stand for themselves. -/
theorem reads_plain_append {names parts : List (List Char)} (plain : ∀ name ∈ names, IsPlain name)
    {components : List Component} :
    Reads (names ++ parts) components ↔
      ∃ behind, Reads parts behind ∧ components = names.map .plain ++ behind := by
  induction names generalizing components with
  | nil => simp
  | cons name names ih =>
    rw [List.forall_mem_cons] at plain
    have front : Pattern.parse name = .ok ⟨name.map .literal⟩ := parse_of_isPlain plain.1
    have first : Reads (name :: (names ++ parts)) components ↔
        ∃ rest, Reads (names ++ parts) rest ∧ components = .plain name :: rest := by
      constructor
      · intro reads
        obtain ⟨patterns, parsed, rfl⟩ := reads
        obtain ⟨pattern, patterns, single, others, rfl⟩ := List.forall₂_cons_left_iff.mp parsed
        rw [front] at single
        cases single
        refine ⟨_, ⟨patterns, others, rfl⟩, ?_⟩
        rw [List.map_cons, List.foldr_cons, ofPattern_literal]
        rfl
      · rintro ⟨rest, ⟨patterns, parsed, rfl⟩, rfl⟩
        refine ⟨⟨name.map .literal⟩ :: patterns, .cons front parsed, ?_⟩
        rw [List.map_cons, List.foldr_cons, ofPattern_literal]
        rfl
    rw [List.cons_append, first]
    simp only [ih plain.2]
    constructor
    · rintro ⟨rest, ⟨behind, reads, rfl⟩, rfl⟩
      exact ⟨behind, reads, rfl⟩
    · rintro ⟨behind, reads, rfl⟩
      exact ⟨_, ⟨behind, reads, rfl⟩, rfl⟩

section Joined

variable {base : Path} {item : List Char}

/-- Behind a plain path a text is a pattern where it is one of its own. -/
theorem isOk_parse_join (nonempty : base.chars ≠ []) (plain : IsPlain base.chars)
    (relative : (Path.mk item).isAbsolute = false) :
    (Pattern.parse (base.join ⟨item⟩).chars).isOk = (Pattern.parse item).isOk := by
  have front : IsPlain (base.chars ++ base.gap) :=
    fun c inside => (List.mem_append.mp inside).elim (plain c) (isPlain_gap base c)
  rw [Path.join_eq nonempty relative, ← List.append_assoc, isOk_parse, isOk_parse,
    tokensFrom_plain_append front, getLast?_gap]
  exact isOk_tokensFrom_congr none 0 false (by decide)

theorem patternParts_join (nonempty : base.chars ≠ [])
    (relative : (Path.mk item).isAbsolute = false) :
    patternParts (base.join ⟨item⟩).chars = base.stem ++ patternParts item := by
  have parts : (base.join ⟨item⟩).steps = base.stem ++ (Path.mk item).steps := by
    rw [Path.steps_join nonempty relative, Path.steps, if_neg (by simp [relative])]
  have behind : (Path.mk item).steps ≠ [] := by
    rw [Path.steps, if_neg (by simp [relative])]
    exact Path.segments_ne_nil _
  simp only [patternParts, parts, List.getLast?_append_of_ne_nil _ behind,
    List.dropLast_append_of_ne_nil behind]
  split <;> rfl

theorem isPlain_of_mem_stem (plain : IsPlain base.chars) {part : List Char}
    (inside : part ∈ base.stem) : IsPlain part :=
  fun c mem => plain c <|
    Path.mem_chars_of_mem_segments (Path.mem_segments_of_mem_stem inside) mem

/-- Behind a plain path the components of a pattern are what they are without it. -/
theorem componentsOf_join (nonempty : base.chars ≠ []) (plain : IsPlain base.chars)
    (relative : (Path.mk item).isAbsolute = false) {components : List Component} :
    componentsOf (base.join ⟨item⟩).chars = .ok components ↔
      ∃ behind, componentsOf item = .ok behind ∧ components = base.stem.map .plain ++ behind := by
  rw [componentsOf_eq_ok_iff, isOk_parse_join nonempty plain relative,
    patternParts_join nonempty relative,
    reads_plain_append fun part inside => isPlain_of_mem_stem plain inside]
  simp only [componentsOf_eq_ok_iff, ← exists_and_left, and_assoc]

end Joined

/-! ## What such a pattern finds -/

/-- The pattern stands for the way. -/
def Matches (pattern : List Char) (way : List (List Char)) : Prop :=
  ∃ components, componentsOf pattern = .ok components ∧ Stands components way

theorem unbroken_of_mem_patternParts {pattern part : List Char} (h : part ∈ patternParts pattern) :
    '/' ∉ part :=
  Path.unbroken_of_mem_segments (mem_segments_of_mem_patternParts h)

/-- A way does not lead up if no part of the pattern does. -/
theorem Matches.leadsOn {pattern : List Char} {way : List (List Char)} (h : Matches pattern way)
    (down : ∀ part ∈ patternParts pattern, LeadsDown part) : ∀ part ∈ way, LeadsOn part := by
  intro part inside
  obtain ⟨components, parsed, stands⟩ := h
  rcases stands.mem_cases inside with entry | plain
  · exact entry.toLeadsOn
  · have among := (reads_of_componentsOf parsed).mem_of_plain plain
    exact (down part among).leadsOn (unbroken_of_mem_patternParts among)

theorem ordinary_of_leadsDown {pattern : List Char} {components : List Component}
    (parsed : componentsOf pattern = .ok components)
    (down : ∀ part ∈ patternParts pattern, LeadsDown part) : Ordinary components := by
  refine ordinary_of_goesDown fun component inside => ?_
  obtain ⟨part, among, pattern', parsed', rfl⟩ := (reads_of_componentsOf parsed).exists_part inside
  exact (down part among).goesDown (unbroken_of_mem_patternParts among) parsed'

theorem begins_of_reads {parts : List (List Char)} {components : List Component}
    (reads : Reads parts components)
    (named : (parts.dropWhile (· == ['.'])).head? ≠ some []) : Begins components .here := by
  refine .inr ⟨rfl, ?_⟩
  induction parts generalizing components with
  | nil =>
    obtain ⟨patterns, parsed, rfl⟩ := reads
    cases parsed
    simp
  | cons part parts ih =>
    by_cases here : part = ['.']
    · subst here
      obtain ⟨patterns, parsed, rfl⟩ := reads
      obtain ⟨pattern, patterns, first, others, rfl⟩ := List.forall₂_cons_left_iff.mp parsed
      cases first
      rw [List.dropWhile_cons_of_pos (by simp)] at named
      have behind : Reads parts ((patterns.map Component.ofPattern).foldr Component.cons []) :=
        ⟨patterns, others, rfl⟩
      exact (ih behind named :)
    · rw [List.dropWhile_cons_of_neg (by simpa using here), List.head?_cons] at named
      obtain ⟨pattern, -, rest, parsed, -, rfl, -⟩ := reads.exists_cons
      rw [List.dropWhile_cons_of_neg fun same => ?_, List.head?_cons]
      · exact fun same => named (congrArg some (parse_plain parsed (Option.some.inj same)).symm)
      · exact here (parse_plain parsed (beq_iff_eq.mp same)).symm

/-- What keeps a pattern behind a path to what is below the path: the path is plain, no part of the
pattern stands for `.` or `..`, and behind a relative path no empty part stands right behind a leading
`.` of both. -/
structure KeepsBelow (base : Path) (pattern : List Char) : Prop where
  plain : IsPlain base.chars
  down : ∀ part ∈ patternParts pattern, LeadsDown part
  named : base.isAbsolute = false → (partsBehindHere (base.join ⟨pattern⟩).chars).head? ≠ some []

/-- The path that a search by a pattern behind a path spells along a way. -/
def landingBehind (base : Path) (way : List (List Char)) : Path :=
  landing (startOf base) (base.stem ++ way)

/-- A search by the components of a pattern may begin where it starts. -/
theorem KeepsBelow.begins {base : Path} {pattern : List Char} (keeps : KeepsBelow base pattern)
    (nonempty : base.chars ≠ []) (relative : (Path.mk pattern).isAbsolute = false)
    {components : List Component} (read : componentsOf (base.join ⟨pattern⟩).chars = .ok components) :
    Begins components (startOf base) := by
  rw [startOf]
  by_cases absolute : base.isAbsolute = true
  · rw [if_pos absolute]
    exact .inl away_root
  · have named := keeps.named (by simpa using absolute)
    rw [partsBehindHere, Path.isAbsolute_join nonempty relative, if_neg absolute] at named
    rw [if_neg absolute]
    exact begins_of_reads (reads_of_componentsOf read) named

/-- A pattern behind a path finds the directories that are at the end of a way behind the path that
the pattern stands for, and nothing else. -/
theorem mem_directories_join {tree : FileTree} (tree_named : tree.WellNamed) {base : Path}
    (nonempty : base.chars ≠ []) {pattern : List Char}
    (relative : (Path.mk pattern).isAbsolute = false) (keeps : KeepsBelow base pattern)
    {found : Path} :
    found ∈ (directories tree (base.join ⟨pattern⟩).chars).toOption.getD [] ↔
      ∃ way, Matches pattern way ∧ found = landingBehind base way ∧
        tree.isDirectory found = true := by
  have start : startOf (base.join ⟨pattern⟩) = startOf base := by
    rw [startOf, Path.isAbsolute_join nonempty relative, startOf]
  rw [directories, start]
  constructor
  · intro h
    cases read : componentsOf (base.join ⟨pattern⟩).chars with
    | error e => simp [read, Except.map, Except.toOption] at h
    | ok all =>
      rw [read] at h
      obtain ⟨searched, leads⟩ := List.mem_filter.mp h
      obtain ⟨components, parsed, rfl⟩ :=
        (componentsOf_join nonempty keeps.plain relative).mp read
      have ordinary : Ordinary (base.stem.map .plain ++ components) := by
        intro wild inside
        refine ordinary_of_leadsDown parsed keeps.down wild ?_
        exact (List.mem_append.mp inside).resolve_left (by simp)
      obtain ⟨parts, stands, rfl⟩ := exists_stands_of_mem_search tree_named ordinary searched
      obtain ⟨way, rfl, behind⟩ := stands_plain_append.mp stands
      exact ⟨way, ⟨components, parsed, behind⟩, rfl, leads⟩
  · rintro ⟨way, ⟨components, parsed, stands⟩, rfl, leads⟩
    have on : ∀ part ∈ way, LeadsOn part := Matches.leadsOn ⟨components, parsed, stands⟩ keeps.down
    have all := (componentsOf_join nonempty keeps.plain relative).mpr ⟨components, parsed, rfl⟩
    rw [all]
    refine List.mem_filter.mpr ⟨?_, leads⟩
    refine mem_search_of_stands (stands_plain_append.mpr ⟨way, rfl, stands⟩)
      (keeps.begins nonempty relative all) ?_ leads
    intro part inside
    rcases List.mem_append.mp inside with before | later
    · exact Path.unbroken_of_mem_segments (Path.mem_segments_of_mem_stem before)
    · exact (on part later).unbroken

end LocaleKeys.Glob
