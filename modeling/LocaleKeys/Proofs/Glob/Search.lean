import LocaleKeys.Glob.Search
import LocaleKeys.Proofs.Attempts
import LocaleKeys.Proofs.Glob.Ways
import Mathlib.Data.List.TakeWhile

/-!
# What a search by a pattern finds

A component of a pattern without wildcards is the part of the pattern that it comes from
(`parse_plain`), so the paths that a search finds are spelled by names of entries and by parts of
the pattern (`mem_search_here`). `specialOf` are the names `.` and `..` that a part stands for;
where there are none the search only goes down.
-/

namespace LocaleKeys.Glob

/-! ## Parts without wildcards -/

theorem plainText?_eq_some_iff {tokens : List Token} {name : List Char} :
    Component.plainText? tokens = some name ↔ tokens = name.map .literal := by
  induction tokens generalizing name with
  | nil => simp [Component.plainText?, eq_comm]
  | cons token tokens ih =>
    cases token with
    | literal c =>
      rw [Component.plainText?, Option.map_eq_some_iff]
      constructor
      · rintro ⟨rest, plain, rfl⟩
        rw [ih.mp plain]
        rfl
      · intro split
        cases name with
        | nil => exact absurd split (by simp)
        | cons d name =>
          obtain ⟨same, rest⟩ := List.cons.inj split
          cases same
          exact ⟨name, ih.mpr rest, rfl⟩
    | _ => cases name <;> simp [Component.plainText?]

theorem anyComponents_mem_addComponents (tokens : List Token) :
    .anyComponents ∈ addComponents tokens := by
  unfold addComponents
  split <;> simp

/-- Tokens that are all literal are the characters that they are read from. -/
theorem tokensFrom_literal {opened : Option OpenClass} {tokens : List Token} {position : Nat}
    {before : Option Char} {text : List Char} {result : List Token}
    (h : tokensFrom opened tokens position before text = .ok result)
    (literal : ∀ token ∈ result, ∃ c, token = .literal c) :
    opened = none ∧ result = tokens.reverse ++ text.map .literal := by
  -- A wildcard that has been read is among the tokens in the end.
  have read : ∀ {token : Token} {tokens : List Token} {rest : List Char},
      result = tokens.reverse ++ rest.map .literal → token ∈ tokens → ∃ c, token = .literal c :=
    fun split inside => literal _ (by simp [split, inside])
  fun_induction tokensFrom opened tokens position before text with
  | case1 tokens =>
    cases h
    simp
  | case2 => exact absurd h (by simp)
  | case3 tokens _ _ _ _ opened _ token ih =>
    obtain ⟨c, isLiteral⟩ := read (ih h).2 List.mem_cons_self
    exact absurd isLiteral (by simp [token])
  | case4 _ _ _ _ _ _ _ _ ih => exact absurd (ih h).1 (by simp)
  | case5 _ _ _ _ ih =>
    obtain ⟨c, isLiteral⟩ := read (ih h).2 List.mem_cons_self
    exact absurd isLiteral (by simp)
  | case6 => exact absurd h (by simp)
  | case7 tokens =>
    cases h
    obtain ⟨c, isLiteral⟩ := literal .anyComponents
      (List.mem_reverse.mpr (anyComponents_mem_addComponents tokens))
    exact absurd isLiteral (by simp)
  | case8 tokens _ _ _ _ _ ih =>
    obtain ⟨c, isLiteral⟩ := read (ih h).2 (anyComponents_mem_addComponents tokens)
    exact absurd isLiteral (by simp)
  | case9 => exact absurd h (by simp)
  | case10 => exact absurd h (by simp)
  | case11 _ _ _ _ _ _ ih =>
    obtain ⟨c, isLiteral⟩ := read (ih h).2 List.mem_cons_self
    exact absurd isLiteral (by simp)
  | case12 _ _ _ _ ih => exact absurd (ih h).1 (by simp)
  | case13 _ _ _ _ _ ih => exact absurd (ih h).1 (by simp)
  | case14 tokens _ _ c rest _ _ _ _ _ _ ih =>
    refine ⟨rfl, ?_⟩
    rw [(ih h).2]
    simp

/-- A component without wildcards is the part that it comes from. -/
theorem parse_plain {part name : List Char} {pattern : Pattern}
    (h : Pattern.parse part = .ok pattern) (plain : Component.ofPattern pattern = .plain name) :
    name = part := by
  have tokens : pattern.tokens = name.map .literal := by
    rw [Component.ofPattern] at plain
    split at plain
    · exact absurd plain (by simp)
    · split at plain
      · next text spelled =>
        cases plain
        exact plainText?_eq_some_iff.mp spelled
      · exact absurd plain (by simp)
  rw [Pattern.parse] at h
  cases read : tokensFrom none [] 0 none part with
  | error e => simp [read, Except.map] at h
  | ok result =>
    rw [read] at h
    cases h
    have literal : ∀ token ∈ result, ∃ c, token = .literal c := by
      intro token inside
      simp only at tokens
      rw [tokens] at inside
      obtain ⟨c, -, rfl⟩ := List.mem_map.mp inside
      exact ⟨c, rfl⟩
    have same := (tokensFrom_literal read literal).2.symm.trans tokens
    exact ((List.map_inj_right fun _ _ => Token.literal.inj).mp same).symm

/-! ## Searches that only go down -/

/-- A search only goes down along the component. -/
def Component.GoesDown : Component → Prop
  | .plain name => LeadsOn name
  | .wild pattern => specialMatches pattern = []
  | .any => True

theorem ordinary_of_goesDown {components : List Component}
    (down : ∀ component ∈ components, component.GoesDown) : Ordinary components :=
  fun pattern inside => down (.wild pattern) inside

/-! ## At the start of a search -/

/-- A search that enters the start directory first spells what it finds without the start. -/
theorem mem_search_here {tree : FileTree} (named : tree.WellNamed) {first : Component}
    {rest : List Component} (down : ∀ component ∈ first :: rest, component.GoesDown)
    (enters : ∀ name, first = .plain name → IsEntryName name) {found : Path}
    (h : found ∈ search tree (first :: rest) .here) :
    ∃ name segments, found = (Path.mk []).descend (name :: segments) ∧ IsEntryName name ∧
      ∀ segment ∈ segments, IsEntryName segment ∨ .plain segment ∈ rest := by
  obtain ⟨way, stands, rfl⟩ := exists_stands_of_mem_search named (ordinary_of_goesDown down) h
  obtain ⟨name, segments, rfl, entry, others⟩ := stands.exists_cons enters
  refine ⟨name, segments, ?_, entry, others⟩
  have unbroken : ∀ segment ∈ segments, '/' ∉ segment := by
    intro segment inside
    rcases others segment inside with entry' | plain
    · exact entry'.unbroken
    · exact LeadsOn.unbroken (down _ (List.mem_cons_of_mem _ plain))
  rw [landing_cons, (away_entryPath .here entry).landing_eq unbroken, entryPath_here]
  rfl

/-- The start directory itself leads nowhere else. -/
theorem mem_search_of_here {tree : FileTree} {components : List Component} {found : Path}
    (h : found ∈ search tree (.plain ['.'] :: components) .here) :
    found ∈ search tree components .here := by
  have start : isStart .here = true := by decide
  rw [search] at h
  simp only [if_pos start] at h
  by_cases leads : (if specialNames.contains ['.'] = true then tree.isDirectory .here
      else tree.contains ⟨['.']⟩) = true
  · rw [if_pos leads] at h
    exact h
  · rw [if_neg leads] at h
    exact absurd h List.not_mem_nil

/-! ## The parts of a pattern -/

/-- The names `.` and `..` that a part of a pattern stands for. -/
def specialOf (part : List Char) : List (List Char) :=
  match Pattern.parse part with
  | .ok pattern => specialMatches pattern
  | .error _ => []

/-- The part of a pattern stands for nothing but entries and perhaps the directory itself. -/
def LeadsDown (part : List Char) : Prop :=
  Path.isIdle part = true ∨ specialOf part = []

/-- The components are those of the parts. -/
def Reads (parts : List (List Char)) (components : List Component) : Prop :=
  ∃ patterns, List.Forall₂ (fun part pattern => Pattern.parse part = .ok pattern) parts patterns ∧
    components = (patterns.map Component.ofPattern).foldr Component.cons []

theorem LeadsDown.leadsOn {part : List Char} (down : LeadsDown part) (unbroken : '/' ∉ part) :
    LeadsOn part := by
  refine ⟨?_, unbroken⟩
  rintro rfl
  rcases down with idle | special
  · exact absurd idle (by decide)
  · exact absurd special (by decide)

theorem LeadsDown.goesDown {part : List Char} (down : LeadsDown part) (unbroken : '/' ∉ part)
    {pattern : Pattern} (h : Pattern.parse part = .ok pattern) :
    (Component.ofPattern pattern).GoesDown := by
  cases component : Component.ofPattern pattern with
  | plain name =>
    obtain rfl := parse_plain h component
    exact down.leadsOn unbroken
  | any => trivial
  | wild pattern' =>
    have same : pattern' = pattern := by
      rw [Component.ofPattern] at component
      split at component
      · exact absurd component (by simp)
      · split at component
        · exact absurd component (by simp)
        · exact (Component.wild.inj component).symm
    subst same
    rcases down with idle | special
    · -- An idle part has no wildcards.
      have plain : part = [] ∨ part = ['.'] := by simpa [Path.isIdle] using idle
      rcases plain with rfl | rfl
      · cases h
        exact absurd component (by decide)
      · cases h
        exact absurd component (by decide)
    · rw [specialOf, h] at special
      exact special

theorem exists_cons_eq (component : Component) (components : List Component) :
    ∃ rest, Component.cons component components = component :: rest ∧ rest <:+ components := by
  unfold Component.cons
  split
  · next rest => exact ⟨rest, rfl, List.suffix_cons ..⟩
  · exact ⟨components, rfl, List.suffix_refl _⟩

theorem Reads.exists_cons {part : List Char} {parts : List (List Char)}
    {components : List Component} (h : Reads (part :: parts) components) :
    ∃ pattern rest rest', Pattern.parse part = .ok pattern ∧ Reads parts rest ∧
      components = Component.ofPattern pattern :: rest' ∧ rest' <:+ rest := by
  obtain ⟨patterns, parsed, rfl⟩ := h
  obtain ⟨pattern, patterns, first, others, rfl⟩ := List.forall₂_cons_left_iff.mp parsed
  obtain ⟨rest', split, behind⟩ := exists_cons_eq (Component.ofPattern pattern)
    ((patterns.map Component.ofPattern).foldr Component.cons [])
  exact ⟨pattern, _, rest', first, ⟨patterns, others, rfl⟩, split, behind⟩

theorem Reads.exists_part {parts : List (List Char)} {components : List Component}
    (h : Reads parts components) {component : Component} (inside : component ∈ components) :
    ∃ part ∈ parts, ∃ pattern, Pattern.parse part = .ok pattern ∧
      component = Component.ofPattern pattern := by
  induction parts generalizing components with
  | nil =>
    obtain ⟨patterns, parsed, rfl⟩ := h
    cases parsed
    exact absurd inside List.not_mem_nil
  | cons part parts ih =>
    obtain ⟨pattern, rest, rest', first, others, rfl, behind⟩ := h.exists_cons
    rcases List.mem_cons.mp inside with rfl | later
    · exact ⟨part, by simp, pattern, first, rfl⟩
    · obtain ⟨part', among, found⟩ := ih others (behind.subset later)
      exact ⟨part', List.mem_cons_of_mem _ among, found⟩

/-- Components without wildcards are parts. -/
theorem Reads.mem_of_plain {parts : List (List Char)} {components : List Component}
    (h : Reads parts components) {name : List Char} (inside : .plain name ∈ components) :
    name ∈ parts := by
  obtain ⟨part, among, pattern, parsed, same⟩ := h.exists_part inside
  rw [parse_plain parsed same.symm]
  exact among

theorem reads_of_componentsOf {text : List Char} {components : List Component}
    (h : componentsOf text = .ok components) : Reads (patternParts text) components := by
  rw [componentsOf] at h
  cases whole : Pattern.parse text with
  | error e => simp [whole, bind, Except.bind] at h
  | ok pattern =>
    cases parsed : (patternParts text).mapM Pattern.parse with
    | error e => simp [whole, parsed, bind, Except.bind] at h
    | ok patterns =>
      simp only [whole, parsed, bind, Except.bind, pure, Except.pure, Except.ok.injEq] at h
      exact ⟨patterns, mapM_eq_ok_iff.mp parsed, h.symm⟩

/-- Parts that are the start directory itself lead nowhere else. -/
theorem mem_search_dropWhile {tree : FileTree} {parts : List (List Char)}
    {components : List Component} (reads : Reads parts components) {found : Path}
    (h : found ∈ search tree components .here) :
    ∃ components', Reads (parts.dropWhile (· == ['.'])) components' ∧
      found ∈ search tree components' .here := by
  induction parts generalizing components with
  | nil => exact ⟨components, reads, h⟩
  | cons part parts ih =>
    by_cases here : part = ['.']
    · subst here
      obtain ⟨patterns, parsed, rfl⟩ := reads
      obtain ⟨pattern, patterns, first, others, rfl⟩ := List.forall₂_cons_left_iff.mp parsed
      cases first
      rw [List.dropWhile_cons_of_pos (by simp)]
      exact ih ⟨patterns, others, rfl⟩ (mem_search_of_here h)
    · rw [List.dropWhile_cons_of_neg (by simpa using here)]
      exact ⟨components, reads, h⟩

/-- The parts of a pattern behind those that are the start directory itself. The root directory,
where the search by an absolute pattern starts, has no part of its own. -/
def partsBehindHere (pattern : List Char) : List (List Char) :=
  if (Path.mk pattern).isAbsolute then patternParts pattern
  else (patternParts pattern).dropWhile (· == ['.'])

theorem steps_eq_patternParts (pattern : List Char) :
    (Path.mk pattern).steps = patternParts pattern ∨
      (Path.mk pattern).steps = patternParts pattern ++ [[]] := by
  by_cases last : (Path.mk pattern).steps.getLast? = some []
  · obtain ⟨front, split⟩ := List.getLast?_eq_some_iff.mp last
    simp only [patternParts, if_pos last]
    rw [split, List.dropLast_concat]
    exact .inr rfl
  · simp only [patternParts, if_neg last, true_or]

theorem mem_segments_of_mem_patternParts {pattern part : List Char}
    (h : part ∈ patternParts pattern) : part ∈ (Path.mk pattern).segments := by
  apply Path.mem_segments_of_mem_steps
  rcases steps_eq_patternParts pattern with same | behind
  · exact same ▸ h
  · exact behind ▸ List.mem_append_left _ h

theorem mem_segments_of_mem_partsBehindHere {pattern part : List Char}
    (h : part ∈ partsBehindHere pattern) : part ∈ (Path.mk pattern).segments := by
  apply mem_segments_of_mem_patternParts
  rw [partsBehindHere] at h
  split at h
  · exact h
  · exact (List.dropWhile_sublist _).subset h

/-- A pattern with a wildcard does not end at the directory where its search starts. -/
theorem partsBehindHere_ne_nil {pattern : List Char} (wild : isPatternText pattern = true) :
    partsBehindHere pattern ≠ [] := by
  obtain ⟨c, inside, mark⟩ : ∃ c ∈ pattern, c = '*' ∨ c = '?' := by
    rw [isPatternText, Bool.or_eq_true, List.contains_iff_mem, List.contains_iff_mem] at wild
    rcases wild with star | question
    · exact ⟨'*', star, .inl rfl⟩
    · exact ⟨'?', question, .inr rfl⟩
  have slash : c ≠ '/' := by rcases mark with rfl | rfl <;> decide
  have dot : c ≠ '.' := by rcases mark with rfl | rfl <;> decide
  obtain ⟨part, among, mem⟩ := @Path.exists_mem_segments ⟨pattern⟩ c inside slash
  have nonempty : part ≠ [] := List.ne_nil_of_mem mem
  have kept : part ∈ patternParts pattern := by
    have among := Path.mem_steps among nonempty
    rcases steps_eq_patternParts pattern with same | behind
    · rw [← same]
      exact among
    · rw [behind, List.mem_append, List.mem_singleton] at among
      exact among.resolve_right nonempty
  intro nothing
  rw [partsBehindHere] at nothing
  split at nothing
  · rw [nothing] at kept
    exact absurd kept List.not_mem_nil
  · have here := List.dropWhile_eq_nil_iff.mp nothing part kept
    rw [beq_iff_eq] at here
    rw [here, List.mem_singleton] at mem
    exact dot mem

/-- A search by the pattern enters an entry of the working directory, unless it starts at the root
directory, and only goes down from there. -/
structure Descends (pattern : List Char) : Prop where
  enters : (Path.mk pattern).isAbsolute = false →
    ∀ part ∈ (partsBehindHere pattern).head?, Path.isIdle part = false
  down : ∀ part ∈ partsBehindHere pattern, LeadsDown part

theorem Descends.leadsOn {pattern part : List Char} (h : Descends pattern)
    (among : part ∈ partsBehindHere pattern) : LeadsOn part :=
  (h.down part among).leadsOn
    (Path.unbroken_of_mem_segments (mem_segments_of_mem_partsBehindHere among))

theorem Descends.goesDown {pattern : List Char} (h : Descends pattern)
    {components : List Component} (reads : Reads (partsBehindHere pattern) components) :
    ∀ component ∈ components, component.GoesDown := by
  intro component inside
  obtain ⟨part, among, parsed_pattern, parsed, rfl⟩ := reads.exists_part inside
  exact (h.down part among).goesDown (h.leadsOn among).unbroken parsed

/-- A relative search by such a pattern begins with an entry. -/
theorem Descends.exists_cons {pattern : List Char} (h : Descends pattern)
    (relative : (Path.mk pattern).isAbsolute = false) (wild : isPatternText pattern = true)
    {components : List Component} (reads : Reads (partsBehindHere pattern) components) :
    ∃ first rest, components = first :: rest ∧
      ∀ name, first = .plain name → IsEntryName name := by
  obtain ⟨part, parts, split⟩ := List.exists_cons_of_ne_nil (partsBehindHere_ne_nil wild)
  have among : part ∈ partsBehindHere pattern := by simp [split]
  have enters := h.enters relative part (by simp [split])
  rw [split] at reads
  obtain ⟨parsed_pattern, -, rest, parsed, -, rfl, -⟩ := reads.exists_cons
  refine ⟨_, rest, rfl, fun name plain => ?_⟩
  rw [parse_plain parsed plain]
  exact ⟨h.leadsOn among, enters⟩

/-- The parts by which such a pattern spells what it finds: they lead down, and idle ones are parts of
the pattern. -/
def IsSpelling (pattern : List Char) (segments : List (List Char)) : Prop :=
  ∀ segment ∈ segments, LeadsOn segment ∧
    (Path.isIdle segment = true → segment ∈ partsBehindHere pattern)

theorem Descends.isSpelling {pattern : List Char} (h : Descends pattern)
    {components : List Component} (reads : Reads (partsBehindHere pattern) components)
    {segments : List (List Char)}
    (others : ∀ segment ∈ segments, IsEntryName segment ∨ .plain segment ∈ components) :
    IsSpelling pattern segments := by
  intro segment inside
  rcases others segment inside with entry | plain
  · refine ⟨entry.toLeadsOn, fun idle => ?_⟩
    exact absurd (entry.not_idle.symm.trans idle) (by decide)
  · have among := reads.mem_of_plain plain
    exact ⟨h.leadsOn among, fun _ => among⟩

/-- The directories that such a pattern finds are spelled by names behind where the pattern begins,
so without the start of a relative search; idle parts of the pattern are kept. -/
theorem mem_directories {tree : FileTree} (named : tree.WellNamed) {pattern : List Char}
    (wild : isPatternText pattern = true) (descends : Descends pattern) {found : Path}
    (h : found ∈ (directories tree pattern).toOption.getD []) :
    ∃ segments, found = (Path.mk pattern).anchor.descend segments ∧
      found.components
        = (Path.mk pattern).anchor.components ++ (Path.solid segments).map .name ∧
      IsSpelling pattern segments := by
  rw [directories] at h
  cases read : componentsOf pattern with
  | error e => simp [read, Except.map, Except.toOption] at h
  | ok list =>
    rw [read] at h
    have searched := (List.mem_filter.mp h).1
    have reads := reads_of_componentsOf read
    by_cases absolute : (Path.mk pattern).isAbsolute = true
    · rw [startOf, if_pos absolute] at searched
      have parts : partsBehindHere pattern = patternParts pattern := if_pos absolute
      rw [← parts] at reads
      obtain ⟨way, stands, rfl⟩ := exists_stands_of_mem_search named
        (ordinary_of_goesDown (descends.goesDown reads)) searched
      have spells := descends.isSpelling reads fun segment => stands.mem_cases
      rw [Path.anchor, if_pos absolute, away_root.landing_eq fun part hp => (spells part hp).1.unbroken]
      exact ⟨way, rfl, Path.components_descend (by decide) fun part hp => (spells part hp).1, spells⟩
    · have relative : (Path.mk pattern).isAbsolute = false := by simpa using absolute
      rw [startOf, if_neg absolute] at searched
      obtain ⟨components, reads, searched⟩ := mem_search_dropWhile reads searched
      have parts : partsBehindHere pattern = (patternParts pattern).dropWhile (· == ['.']) :=
        if_neg absolute
      rw [← parts] at reads
      have down := descends.goesDown reads
      obtain ⟨first, rest, rfl, enters⟩ := descends.exists_cons relative wild reads
      obtain ⟨name, segments, rfl, entry, others⟩ := mem_search_here named down enters searched
      have spells : IsSpelling pattern (name :: segments) := by
        refine descends.isSpelling reads (List.forall_mem_cons.mpr ⟨.inl entry, fun segment hs => ?_⟩)
        exact (others segment hs).imp_right (List.mem_cons_of_mem _)
      rw [Path.anchor, if_neg absolute]
      exact ⟨name :: segments, rfl, Path.components_descend_empty entry fun segment hs =>
        (spells segment (List.mem_cons_of_mem _ hs)).1, spells⟩

end LocaleKeys.Glob
