import LocaleKeys.Glob.Search
import LocaleKeys.Proofs.Files.Tree

/-!
# Ways that components stand for

What a search finds is the end of a way from where it starts, one or more parts of the way for each
component (`Stands`), and it is spelled by the parts of that way (`landing`). Unless a component
with wildcards asks for `.` and `..`, a search finds nothing else (`exists_stands_of_mem_search`),
and it finds every directory at the end of such a way (`mem_search_of_stands`).
-/

namespace LocaleKeys.Glob

/-- The components stand for the way: a component without wildcards for itself, one with wildcards
for an entry name that it matches, and `**` for any entry names, at least one at the end of a
pattern. -/
inductive Stands : List Component → List (List Char) → Prop where
  | nil : Stands [] []
  | plain {name : List Char} {rest : List Component} {way : List (List Char)} :
      Stands rest way → Stands (.plain name :: rest) (name :: way)
  | wild {pattern : Pattern} {name : List Char} {rest : List Component}
      {way : List (List Char)} :
      IsEntryName name → pattern.accepts name = true → Stands rest way →
        Stands (.wild pattern :: rest) (name :: way)
  | last {names : List (List Char)} :
      names ≠ [] → (∀ name ∈ names, IsEntryName name) → Stands [.any] names
  | any {next : Component} {names : List (List Char)} {name : List Char}
      {rest : List Component} {way : List (List Char)} :
      (∀ name' ∈ names ++ [name], IsEntryName name') → next.accepts name = true →
        Stands rest way → Stands (.any :: next :: rest) (names ++ [name] ++ way)

theorem Stands.mem_cases {components : List Component} {way : List (List Char)}
    (h : Stands components way) {part : List Char} (inside : part ∈ way) :
    IsEntryName part ∨ .plain part ∈ components := by
  induction h with
  | nil => exact absurd inside List.not_mem_nil
  | plain _ ih =>
    rcases List.mem_cons.mp inside with rfl | later
    · exact .inr List.mem_cons_self
    · exact (ih later).imp_right (List.mem_cons_of_mem _)
  | wild entry _ _ ih =>
    rcases List.mem_cons.mp inside with rfl | later
    · exact .inl entry
    · exact (ih later).imp_right (List.mem_cons_of_mem _)
  | last _ entries => exact .inl (entries part inside)
  | any entries _ _ ih =>
    rcases List.mem_append.mp inside with before | later
    · exact .inl (entries part before)
    · exact (ih later).imp_right fun plain =>
        List.mem_cons_of_mem _ (List.mem_cons_of_mem _ plain)

/-- A way begins with an entry name unless the first component is another part. -/
theorem Stands.exists_cons {first : Component} {rest : List Component} {way : List (List Char)}
    (h : Stands (first :: rest) way) (enters : ∀ name, first = .plain name → IsEntryName name) :
    ∃ name behind, way = name :: behind ∧ IsEntryName name ∧
      ∀ part ∈ behind, IsEntryName part ∨ .plain part ∈ rest := by
  cases h with
  | @plain name _ way stands => exact ⟨name, way, rfl, enters name rfl, fun _ => stands.mem_cases⟩
  | @wild _ name _ way entry _ stands => exact ⟨name, way, rfl, entry, fun _ => stands.mem_cases⟩
  | last nonempty entries =>
    obtain ⟨name, names, rfl⟩ := List.exists_cons_of_ne_nil nonempty
    rw [List.forall_mem_cons] at entries
    exact ⟨name, names, rfl, entries.1, fun part inside => .inl (entries.2 part inside)⟩
  | @any next names name rest way entries _ stands =>
    obtain ⟨name', front, split⟩ := List.exists_cons_of_ne_nil (List.concat_ne_nil name names)
    rw [split, List.forall_mem_cons] at entries
    refine ⟨name', front ++ way, by rw [split]; rfl, entries.1, fun part inside => ?_⟩
    rcases List.mem_append.mp inside with before | later
    · exact .inl (entries.2 part before)
    · exact (stands.mem_cases later).imp_right (List.mem_cons_of_mem _)

/-- Components without wildcards in front stand for themselves. -/
theorem stands_plain_append {names : List (List Char)} {components : List Component}
    {way : List (List Char)} :
    Stands (names.map .plain ++ components) way ↔
      ∃ behind, way = names ++ behind ∧ Stands components behind := by
  induction names generalizing way with
  | nil => simp
  | cons name names ih =>
    rw [List.map_cons, List.cons_append]
    constructor
    · intro h
      cases h with
      | plain others =>
        obtain ⟨behind, rfl, stands⟩ := ih.mp others
        exact ⟨behind, rfl, stands⟩
    · rintro ⟨behind, rfl, stands⟩
      exact .plain (ih.mpr ⟨behind, rfl, stands⟩)

/-! ## How a way is spelled -/

/-- The path is spelled in front of what a search finds behind it. -/
structure Away (path : Path) : Prop where
  nonempty : path.chars ≠ []
  not_start : isStart path = false

theorem away_iff_components_ne {path : Path} (nonempty : path.chars ≠ []) :
    Away path ↔ path.components ≠ [.here] := by
  constructor
  · rintro ⟨-, not_start⟩
    simpa [isStart] using not_start
  · intro other
    exact ⟨nonempty, by simpa [isStart] using other⟩

theorem Away.join {path : Path} (away : Away path) {name : List Char} (unbroken : '/' ∉ name) :
    Away (path.join ⟨name⟩) := by
  rw [away_iff_components_ne (Path.chars_join_ne_nil away.nonempty _),
    Path.components_join away.nonempty (Path.isAbsolute_of_unbroken unbroken)]
  intro start
  have front : path.components ≠ [] := Path.components_ne_nil away.nonempty
  obtain ⟨c, rest, split⟩ := List.exists_cons_of_ne_nil front
  rw [split, List.cons_append, List.cons.injEq, List.append_eq_nil_iff] at start
  apply (away_iff_components_ne away.nonempty).mp away
  rw [split, start.1, start.2.1]

theorem away_of_segment {segment : List Char} (nonempty : segment ≠ []) (other : segment ≠ ['.'])
    (unbroken : '/' ∉ segment) : Away ⟨segment⟩ := by
  rw [away_iff_components_ne nonempty, Path.components, Path.segments_of_unbroken unbroken]
  simp only [if_neg nonempty, if_neg other, Path.componentOf]
  split <;> simp

theorem away_of_name {name : List Char} (h : IsEntryName name) : Away ⟨name⟩ :=
  away_of_segment h.ne_nil h.ne_here h.unbroken

theorem Away.entryPath_eq {path : Path} (away : Away path) (way : List (List Char)) :
    entryPath path way = path.descend way := by
  rw [entryPath, if_neg (by simp [away.not_start])]

theorem entryPath_here (way : List (List Char)) :
    entryPath .here way = (Path.mk []).descend way :=
  if_pos (by decide)

theorem entryPath_singleton (path : Path) (name : List Char) :
    entryPath path [name] = if isStart path then ⟨name⟩ else path.join ⟨name⟩ := by
  rw [entryPath, Path.descend_cons, Path.join_empty]
  rfl

/-- The path that a search spells along a way. -/
def landing (path : Path) (way : List (List Char)) : Path :=
  way.foldl (fun path part => entryPath path [part]) path

theorem landing_cons (path : Path) (part : List Char) (way : List (List Char)) :
    landing path (part :: way) = landing (entryPath path [part]) way :=
  rfl

theorem landing_append (path : Path) (way way' : List (List Char)) :
    landing path (way ++ way') = landing (landing path way) way' :=
  List.foldl_append

theorem Away.landing_eq {path : Path} (away : Away path) {way : List (List Char)}
    (unbroken : ∀ part ∈ way, '/' ∉ part) : landing path way = path.descend way := by
  induction way generalizing path with
  | nil => rfl
  | cons part way ih =>
    rw [List.forall_mem_cons] at unbroken
    rw [landing_cons, away.entryPath_eq]
    exact ih (away.join unbroken.1) unbroken.2

/-- An entry name is spelled, wherever the entry is. -/
theorem away_entryPath (path : Path) {name : List Char} (entry : IsEntryName name) :
    Away (entryPath path [name]) := by
  rw [entryPath_singleton]
  by_cases start : isStart path = true
  · rw [if_pos start]
    exact away_of_name entry
  · rw [if_neg start]
    by_cases empty : path.chars = []
    · obtain ⟨chars⟩ := path
      subst empty
      rw [Path.join_empty]
      exact away_of_name entry
    · exact Away.join ⟨empty, by simpa using start⟩ entry.unbroken

/-- Names of entries are spelled one by one. -/
theorem entryPath_eq_landing (path : Path) {names : List (List Char)} (nonempty : names ≠ [])
    (entries : ∀ name ∈ names, IsEntryName name) : entryPath path names = landing path names := by
  obtain ⟨name, names, rfl⟩ := List.exists_cons_of_ne_nil nonempty
  rw [List.forall_mem_cons] at entries
  rw [landing_cons, (away_entryPath path entries.1).landing_eq
    fun name hn => (entries.2 name hn).unbroken, entryPath, entryPath]
  split <;> rfl

theorem away_root : Away .root := ⟨by decide, by decide⟩

section Place

variable (tree : FileTree)

theorem placeOf_of_isStart {path : Path} (h : isStart path = true) :
    tree.placeOf path = tree.working := by
  rw [FileTree.placeOf, beq_iff_eq.mp h]
  rfl

theorem placeOf_startOf (path : Path) : tree.placeOf (startOf path) = tree.origin path := by
  rw [startOf, FileTree.origin]
  split <;> rfl

theorem placeOf_entryPath (path : Path) {part : List Char} (unbroken : '/' ∉ part) :
    tree.placeOf (entryPath path [part]) = (tree.placeOf path).go part := by
  have single := Path.isAbsolute_of_unbroken unbroken
  rw [entryPath_singleton]
  by_cases start : isStart path = true
  · rw [if_pos start, placeOf_of_isStart tree start, FileTree.placeOf_eq,
      FileTree.origin_of_relative _ single, Path.segments_of_unbroken unbroken]
    rfl
  · rw [if_neg start, FileTree.placeOf_join _ _ single, Path.segments_of_unbroken unbroken]
    rfl

/-- A search follows the parts of a way. -/
theorem placeOf_landing (path : Path) {way : List (List Char)}
    (unbroken : ∀ part ∈ way, '/' ∉ part) :
    tree.placeOf (landing path way) = way.foldl Place.go (tree.placeOf path) := by
  induction way generalizing path with
  | nil => rfl
  | cons part way ih =>
    rw [List.forall_mem_cons] at unbroken
    rw [landing_cons, ih _ unbroken.2, placeOf_entryPath tree path unbroken.1]
    rfl

end Place

/-! ## What a search finds -/

theorem isEntryName_of_mem_waysBelow {tree : FileTree} (named : tree.WellNamed) {path : Path}
    {way : List (List Char)} (h : way ∈ waysBelow tree path) :
    way ≠ [] ∧ ∀ name ∈ way, IsEntryName name := by
  rw [waysBelow] at h
  split at h
  · obtain ⟨⟨way, node⟩, inside, rfl⟩ := List.mem_map.mp h
    obtain ⟨nonempty, stored⟩ := FileTree.mem_below_iff.mp inside
    exact ⟨nonempty, fun name hn => named _ stored name (List.mem_append_right _ hn)⟩
  · exact absurd h List.not_mem_nil

/-- No component asks for `.` or `..` by wildcards. -/
def Ordinary (components : List Component) : Prop :=
  ∀ pattern, .wild pattern ∈ components → specialMatches pattern = []

theorem Ordinary.tail {component : Component} {rest : List Component}
    (h : Ordinary (component :: rest)) : Ordinary rest :=
  fun pattern inside => h pattern (List.mem_cons_of_mem _ inside)

/-- The entries that a component with wildcards stands for. -/
theorem mem_entries_iff {tree : FileTree} {path : Path} {pattern : Pattern} {name : List Char} :
    (name ∈ (waysBelow tree path).filterMap fun way =>
      match way with
      | [name] => if pattern.accepts name then some name else none
      | _ => none) ↔ [name] ∈ waysBelow tree path ∧ pattern.accepts name = true := by
  rw [List.mem_filterMap]
  constructor
  · rintro ⟨way, inside, matched⟩
    split at matched
    · split at matched
      · next accepted =>
        cases matched
        exact ⟨inside, accepted⟩
      · exact absurd matched (by simp)
    · exact absurd matched (by simp)
  · rintro ⟨inside, accepted⟩
    exact ⟨[name], inside, if_pos accepted⟩

/-- A search finds ends of ways that its components stand for. -/
theorem exists_stands_of_mem_search {tree : FileTree} (named : tree.WellNamed)
    {components : List Component} (ordinary : Ordinary components) {path found : Path}
    (h : found ∈ search tree components path) :
    ∃ way, Stands components way ∧ found = landing path way := by
  fun_induction search tree components path with
  | case1 path => exact ⟨[], .nil, List.mem_singleton.mp h⟩
  | case2 name rest path next leads ok ih =>
    obtain ⟨way, stands, rfl⟩ := ih ordinary.tail h
    exact ⟨name :: way, .plain stands, by rw [landing_cons, entryPath_singleton]⟩
  | case3 => exact absurd h List.not_mem_nil
  | case4 pattern rest path names ih ih' =>
    rw [ordinary pattern List.mem_cons_self, List.flatMap_nil, ite_self, List.append_nil] at h
    obtain ⟨name, among, later⟩ := List.mem_flatMap.mp h
    obtain ⟨inside, accepted⟩ := mem_entries_iff.mp among
    obtain ⟨way, stands, rfl⟩ := ih name ordinary.tail later
    have entry := (isEntryName_of_mem_waysBelow named inside).2 name (List.mem_singleton_self _)
    exact ⟨name :: way, .wild entry accepted stands, rfl⟩
  | case5 path =>
    obtain ⟨way, inside, rfl⟩ := List.mem_map.mp h
    obtain ⟨nonempty, entries⟩ := isEntryName_of_mem_waysBelow named inside
    exact ⟨way, .last nonempty entries, entryPath_eq_landing path nonempty entries⟩
  | case6 next rest path ih =>
    obtain ⟨front, inside, later⟩ := List.mem_flatMap.mp h
    split at later
    · next ends =>
      obtain ⟨way, stands, rfl⟩ := ih front ordinary.tail.tail later
      obtain ⟨nonempty, entries⟩ := isEntryName_of_mem_waysBelow named inside
      obtain ⟨name, last, accepted⟩ := (Option.any_eq_true ..).mp ends
      obtain ⟨names, rfl⟩ := List.getLast?_eq_some_iff.mp last
      refine ⟨names ++ [name] ++ way, .any entries accepted stands, ?_⟩
      rw [landing_append, ← entryPath_eq_landing path nonempty entries]
    · exact absurd later List.not_mem_nil

/-! ## What is found by a search -/

/-- A search by the components may begin at the path: it has left the start, or the first component
that is not the start itself has a name. -/
def Begins (components : List Component) (path : Path) : Prop :=
  Away path ∨ path = .here ∧
    (components.dropWhile (· == .plain ['.'])).head? ≠ some (.plain [])

theorem Begins.plain {name : List Char} {rest : List Component} {path : Path}
    (h : Begins (.plain name :: rest) path) (unbroken : '/' ∉ name) :
    Begins rest (entryPath path [name]) := by
  rw [entryPath_singleton]
  rcases h with away | ⟨rfl, named⟩
  · rw [if_neg (by simp [away.not_start])]
    exact .inl (away.join unbroken)
  · rw [if_pos (by decide)]
    by_cases here : name = ['.']
    · subst here
      exact .inr ⟨rfl, named⟩
    · rw [List.dropWhile_cons_of_neg (by simpa using here)] at named
      refine .inl (away_of_segment ?_ here unbroken)
      rintro rfl
      exact named rfl

/-- The path leads to a directory if what is spelled behind it does. -/
theorem Begins.isDirectory_of_landing {tree : FileTree} {components : List Component} {path : Path}
    (h : Begins components path) {way : List (List Char)} (unbroken : ∀ part ∈ way, '/' ∉ part)
    (leads : tree.isDirectory (landing path way) = true) :
    tree.isDirectory path = true := by
  rw [FileTree.isDirectory_eq_true_iff] at leads ⊢
  rcases h with away | ⟨rfl, -⟩
  · rw [away.landing_eq unbroken] at leads
    obtain ⟨place, found⟩ := leads
    obtain ⟨middle, before, -⟩ := FileTree.exists_find_of_descend away.nonempty unbroken found
    exact ⟨middle, before⟩
  · exact ⟨_, tree.find_here⟩

/-- Names of entries behind the start of a relative search are followed from the working
directory. -/
theorem follow_of_landing_here {tree : FileTree} {place : Place} {names : List (List Char)}
    (nonempty : names ≠ []) (entries : ∀ name ∈ names, IsEntryName name)
    (h : tree.find (landing .here names) = .ok (place, .directory)) :
    tree.follow tree.working .directory names = .ok (place, .directory) := by
  obtain ⟨name, names, rfl⟩ := List.exists_cons_of_ne_nil nonempty
  rw [List.forall_mem_cons] at entries
  have unbroken : ∀ name ∈ names, '/' ∉ name := fun name hn => (entries.2 name hn).unbroken
  have away := away_of_name entries.1
  have first : entryPath .here [name] = ⟨name⟩ := by
    rw [entryPath_singleton]
    exact if_pos (by decide)
  rw [landing_cons, first, away.landing_eq unbroken] at h
  obtain ⟨middle, found, behind⟩ := FileTree.exists_find_of_descend away.nonempty unbroken h
  have followed := (FileTree.find_eq_ok_iff.mp found).2.2.2
  rw [FileTree.origin_of_relative _ (Path.isAbsolute_of_unbroken entries.1.unbroken),
    Path.segments_of_unbroken entries.1.unbroken] at followed
  rw [← List.singleton_append, FileTree.follow_append, followed]
  exact behind

/-- Names of entries that lead to a directory are a way below the path. -/
theorem Begins.mem_waysBelow {tree : FileTree} {components : List Component} {path : Path}
    (h : Begins components path) {names : List (List Char)} (nonempty : names ≠ [])
    (entries : ∀ name ∈ names, IsEntryName name)
    (leads : tree.isDirectory (landing path names) = true) : names ∈ waysBelow tree path := by
  have unbroken : ∀ name ∈ names, '/' ∉ name := fun name hn => (entries name hn).unbroken
  obtain ⟨place, found⟩ := FileTree.isDirectory_eq_true_iff.mp leads
  obtain ⟨start, at_path, followed⟩ : ∃ start, tree.find path = .ok (start, .directory) ∧
      tree.follow start .directory names = .ok (place, .directory) := by
    rcases h with away | ⟨rfl, -⟩
    · rw [away.landing_eq unbroken] at found
      exact FileTree.exists_find_of_descend away.nonempty unbroken found
    · exact ⟨_, tree.find_here, follow_of_landing_here nonempty entries found⟩
  rw [waysBelow, at_path]
  exact List.mem_map_of_mem (FileTree.mem_below_of_follow nonempty entries followed)

/-- A search finds every directory at the end of a way that its components stand for. -/
theorem mem_search_of_stands {tree : FileTree} {components : List Component}
    {way : List (List Char)} (stands : Stands components way) {path : Path}
    (begins : Begins components path) (unbroken : ∀ part ∈ way, '/' ∉ part)
    (leads : tree.isDirectory (landing path way) = true) :
    landing path way ∈ search tree components path := by
  induction stands generalizing path with
  | nil => exact List.mem_singleton_self _
  | @plain name rest way _ ih =>
    have here := begins.isDirectory_of_landing unbroken leads
    rw [List.forall_mem_cons] at unbroken
    have begins' := begins.plain unbroken.1
    have next := begins'.isDirectory_of_landing unbroken.2 leads
    rw [search]
    simp only [← entryPath_singleton]
    have leads_on : (if specialNames.contains name = true then tree.isDirectory path
        else tree.contains (entryPath path [name])) = true := by
      split
      · exact here
      · exact FileTree.contains_of_isDirectory next
    rw [if_pos leads_on]
    exact ih begins' unbroken.2 leads
  | @wild pattern name rest way entry accepted _ ih =>
    rw [List.forall_mem_cons] at unbroken
    have begins' : Begins rest (entryPath path [name]) := .inl (away_entryPath path entry)
    have inside : [name] ∈ waysBelow tree path :=
      begins.mem_waysBelow (by simp) (by simpa using entry)
        (begins'.isDirectory_of_landing unbroken.2 leads)
    rw [search]
    refine List.mem_append_left _ (List.mem_flatMap.mpr ⟨name, ?_, ih begins' unbroken.2 leads⟩)
    exact mem_entries_iff.mpr ⟨inside, accepted⟩
  | last nonempty entries =>
    rw [search, ← entryPath_eq_landing path nonempty entries]
    exact List.mem_map_of_mem (begins.mem_waysBelow nonempty entries leads)
  | @any next names name rest way entries accepted _ ih =>
    have behind : ∀ part ∈ way, '/' ∉ part :=
      fun part inside => unbroken part (List.mem_append_right _ inside)
    rw [landing_append] at leads ⊢
    have begins' : Begins rest (landing path (names ++ [name])) := by
      rw [landing_append]
      exact .inl (away_entryPath _ (entries name (by simp)))
    have inside : names ++ [name] ∈ waysBelow tree path :=
      begins.mem_waysBelow (by simp) entries (begins'.isDirectory_of_landing behind leads)
    rw [search]
    refine List.mem_flatMap.mpr ⟨_, inside, ?_⟩
    rw [if_pos (by simpa using accepted), entryPath_eq_landing path (by simp) entries]
    exact ih begins' behind leads

end LocaleKeys.Glob
