import LocaleKeys.Files.Selection
import LocaleKeys.Proofs.Glob.Search
import LocaleKeys.Proofs.Sorting
import Mathlib.Data.List.Nodup

/-!
# How selected files are spelled

A file is spelled the way that leads to it from a starting point, and starting points are spelled
differently by plain includes, which keep the base directory as it is written, and by patterns, which
spell it anew. Literal ignores and the removal of duplicates compare spellings. They do what they
are for where every starting point is spelled alike (`select_respects_ignores`,
`nodup_placeOf_select`), as it is behind an absolute base directory, and fail where a pattern drops the
`.` that the base directory begins with (`ignored_selected`, `selected_twice`).
-/

namespace LocaleKeys

open Glob (isPatternText)

namespace Path

/-! ## Paths spelled alike -/

/-- The components of two paths part in names of entries only. -/
def Alike (path path' : Path) : Prop :=
  ∃ (front : List Component) (names names' : List (List Char)),
    path.components = front ++ names.map .name ∧ path'.components = front ++ names'.map .name

theorem Alike.append {path path' below : Path} (alike : path.Alike path') {names : List (List Char)}
    (spelled : below.components = path.components ++ names.map .name) : below.Alike path' := by
  obtain ⟨front, before, others, path_eq, path'_eq⟩ := alike
  refine ⟨front, before ++ names, others, ?_, path'_eq⟩
  rw [spelled, path_eq, List.map_append, List.append_assoc]

theorem components_join_of_leadsDown {base path : Path} (nonempty : base.chars ≠ [])
    (down : path.LeadsDown) :
    (base.join path).components = base.components ++ (solid path.segments).map .name := by
  rw [components_join nonempty down.relative, map_componentOf_solid fun _ h => down.leadsOn h]

theorem alike_join {base path path' : Path} (nonempty : base.chars ≠ []) (down : path.LeadsDown)
    (down' : path'.LeadsDown) : (base.join path).Alike (base.join path') :=
  ⟨_, _, _, components_join_of_leadsDown nonempty down, components_join_of_leadsDown nonempty down'⟩

theorem alike_self_join {base path : Path} (nonempty : base.chars ≠ []) (down : path.LeadsDown) :
    base.Alike (base.join path) :=
  ⟨_, [], _, (List.append_nil _).symm, components_join_of_leadsDown nonempty down⟩

/-- A base directory that begins with a name or at the root directory, without a part that leads up,
is spelled by names behind where it begins, and so is what is joined to it. -/
theorem anchor_alike_join {base path : Path}
    (begins : base.BeginsWithName ∨ base.isAbsolute = true) (not_up : ['.', '.'] ∉ base.segments)
    (down : path.LeadsDown) : base.anchor.Alike (base.join path) := by
  have nonempty : base.chars ≠ [] :=
    begins.elim BeginsWithName.nonempty nonempty_of_isAbsolute
  refine ⟨base.anchor.components, [], solid base.segments ++ solid path.segments,
    (List.append_nil _).symm, ?_⟩
  rw [components_join_of_leadsDown nonempty down, components_eq_anchor begins not_up,
    List.map_append, List.append_assoc]

/-- Of two paths spelled alike, the one that leads to a place at or below that of the other begins
with the components of the other. -/
theorem Alike.startsWith {tree : FileTree} {above below : Path} (alike : below.Alike above)
    (h : tree.placeOf above <+: tree.placeOf below) : below.startsWith above = true := by
  obtain ⟨front, names, names', below_eq, above_eq⟩ := alike
  rw [FileTree.placeOf, FileTree.placeOf, below_eq, above_eq, List.foldl_append, List.foldl_append,
    Place.foldl_step_name, Place.foldl_step_name, List.prefix_append_right_inj] at h
  rw [Path.startsWith, List.isPrefixOf_iff_prefix, below_eq, above_eq, List.prefix_append_right_inj]
  exact h.map _

end Path

namespace Selection

/-! ## Where selected files come from -/

/-- The selected files, of both kinds. -/
def files (selection : Selection) (tree : FileTree) : List Path :=
  (selection.select tree).sources ++ (selection.select tree).markup

theorem mem_files_iff {selection : Selection} {tree : FileTree} {file : Path} :
    file ∈ selection.files tree ↔
      file ∈ selection.candidates tree ∧
        (selection.isSource file = true ∨ selection.isMarkup file = true) := by
  rw [files, List.mem_append, select, Path.mem_sorted, Path.mem_sorted, List.mem_filter,
    List.mem_filter, and_or_left]

theorem exists_start_of_mem_candidates {selection : Selection} {tree : FileTree} {file : Path}
    (h : file ∈ selection.candidates tree) :
    ∃ start ∈ selection.startingPoints tree, ∃ content,
      (file, .file content) ∈ (tree.walk? start).getD [] ∧ selection.isIgnored file = false := by
  obtain ⟨⟨path, node⟩, walked, kept⟩ := List.mem_filterMap.mp h
  obtain ⟨start, among, walked⟩ := List.mem_flatMap.mp walked
  cases node with
  | directory => exact absurd kept (by simp)
  | file content =>
    by_cases ignored : selection.isIgnored path = true
    · simp [ignored] at kept
    · simp only [if_neg ignored, Option.some.injEq] at kept
      subst kept
      exact ⟨start, among, content, walked, by simpa using ignored⟩

/-- A selected file is spelled by the names on the way from a starting point. -/
theorem exists_way_of_mem_files {selection : Selection} {tree : FileTree} (named : tree.WellNamed)
    {file : Path} (h : file ∈ selection.files tree) :
    ∃ start way, start ∈ selection.startingPoints tree ∧ start.chars ≠ [] ∧
      file = start.descend way ∧ (∀ name ∈ way, IsEntryName name) ∧
      (way = [] → start.chars.getLast? ≠ some '/') ∧ selection.isIgnored file = false := by
  obtain ⟨start, among, content, walked, kept⟩ :=
    exists_start_of_mem_candidates (mem_files_iff.mp h).1
  obtain ⟨way, nonempty, same, entries, ends⟩ := FileTree.exists_way_of_file_mem_walk? named walked
  exact ⟨start, way, among, nonempty, same, entries, ends, kept⟩

/-- A starting point is the base directory, a plain include behind it or what a pattern finds. -/
theorem mem_startingPoints_cases {selection : Selection} {tree : FileTree} {start : Path}
    (h : start ∈ selection.startingPoints tree) :
    (selection.includes = [] ∧ start = selection.base) ∨
    (∃ item ∈ selection.includes, isPatternText item = false ∧
      start = selection.base.join ⟨item⟩) ∨
    ∃ item ∈ selection.includes, isPatternText item = true ∧
      start ∈ (Glob.directories tree (selection.base.join ⟨item⟩).chars).toOption.getD [] := by
  rw [startingPoints] at h
  by_cases none : selection.includes = []
  · rw [none] at h
    exact .inl ⟨none, by simpa using h⟩
  · rw [if_neg (by simpa using none)] at h
    obtain ⟨item, among, named⟩ := List.mem_flatMap.mp h
    rw [includedBy] at named
    by_cases wild : isPatternText item = true
    · simp only [if_pos wild] at named
      exact .inr (.inr ⟨item, among, wild, named⟩)
    · simp only [if_neg wild] at named
      split at named
      · exact .inr (.inl ⟨item, among, by simpa using wild, by simpa using named⟩)
      · exact absurd named List.not_mem_nil

/-- A pattern behind a path is a pattern. -/
theorem isPatternText_join (base : Path) {item : List Char} (wild : isPatternText item = true) :
    isPatternText (base.join ⟨item⟩).chars = true := by
  simp only [isPatternText, Bool.or_eq_true, List.contains_iff_mem] at wild ⊢
  have kept : ∀ c ∈ item, c ∈ (base.join ⟨item⟩).chars := by
    intro c hc
    rw [Path.join]
    split
    · exact hc
    · split
      · exact List.mem_append_right _ hc
      · exact List.mem_append_right _ (List.mem_cons_of_mem _ hc)
  exact wild.imp (kept '*') (kept '?')

/-! ## Literal ignores -/

/-- What the includes lead to is spelled like the path of an ignore: so are the base directory, if
there are no includes, and the paths of plain includes; and the path of the ignore begins where a
pattern does, which spells anew what it finds. -/
structure SpelledLike (selection : Selection) (ignored : Path) : Prop where
  bare : selection.includes = [] → selection.base.Alike ignored
  plain : ∀ item ∈ selection.includes, isPatternText item = false →
    (selection.base.join ⟨item⟩).Alike ignored
  wild : ∀ item ∈ selection.includes, isPatternText item = true →
    Glob.Descends (selection.base.join ⟨item⟩).chars ∧
      (selection.base.join ⟨item⟩).anchor.Alike ignored

theorem SpelledLike.alike {selection : Selection} {tree : FileTree} (named : tree.WellNamed)
    {ignored : Path} (like : selection.SpelledLike ignored) {start : Path}
    (h : start ∈ selection.startingPoints tree) : start.Alike ignored := by
  rcases mem_startingPoints_cases h with ⟨none, rfl⟩ | ⟨item, inside, literal, rfl⟩ |
    ⟨item, inside, wild, found⟩
  · exact like.bare none
  · exact like.plain item inside literal
  · obtain ⟨descends, alike⟩ := like.wild item inside wild
    obtain ⟨segments, -, spelled, -⟩ :=
      Glob.mem_directories named (isPatternText_join _ wild) descends found
    exact alike.append spelled

/-- What an include leads to is spelled as the base directory is: a plain include stands behind it as
it is written, and what a pattern finds is spelled like it only if it begins with a name or at
the root directory. -/
inductive KeepsBase (base : Path) (item : List Char) : Prop where
  | plain (literal : isPatternText item = false) (down : (Path.mk item).LeadsDown)
  | wild (pattern : isPatternText item = true) (relative : (Path.mk item).isAbsolute = false)
      (begins : base.BeginsWithName ∨ base.isAbsolute = true) (not_up : ['.', '.'] ∉ base.segments)
      (down : Glob.Descends (base.join ⟨item⟩).chars)

/-- A relative ignore that does not lead up is spelled like what such includes lead to. -/
theorem spelledLike_join {selection : Selection} (nonempty : selection.base.chars ≠ [])
    (keeps : ∀ item ∈ selection.includes, KeepsBase selection.base item) {path : Path}
    (down : path.LeadsDown) : selection.SpelledLike (selection.base.join path) where
  bare _ := Path.alike_self_join nonempty down
  plain item among literal := by
    cases keeps item among with
    | plain _ item_down => exact Path.alike_join nonempty item_down down
    | wild pattern => exact absurd (literal.symm.trans pattern) (by decide)
  wild item among pattern := by
    cases keeps item among with
    | plain literal => exact absurd (literal.symm.trans pattern) (by decide)
    | wild _ relative begins not_up descends =>
      rw [Path.anchor_join _ relative]
      exact ⟨descends, Path.anchor_alike_join begins not_up down⟩

/-- No file is selected that is at or below what a literal ignore names, if it is spelled like
what the includes lead to. -/
theorem select_respects_ignores {selection : Selection} {tree : FileTree} (named : tree.WellNamed)
    {item : List Char} (among : item ∈ selection.ignores) (literal : isPatternText item = false)
    (like : selection.SpelledLike (selection.base.join ⟨item⟩)) {file : Path}
    (selected : file ∈ selection.files tree) :
    ¬ tree.placeOf (selection.base.join ⟨item⟩) <+: tree.placeOf file := by
  intro below
  obtain ⟨start, way, starts, nonempty, rfl, entries, -, kept⟩ :=
    exists_way_of_mem_files named selected
  have spelled := Path.components_descend nonempty fun name hn => (entries name hn).toLeadsOn
  have begins : (start.descend way).startsWith (selection.base.join ⟨item⟩) = true :=
    ((like.alike named starts).append spelled).startsWith below
  have ignored : selection.isIgnored (start.descend way) = true :=
    List.any_eq_true.mpr ⟨item, among, by rw [covers, if_neg (by simp [literal])]; exact begins⟩
  exact absurd (kept.symm.trans ignored) (by decide)

/-- Both kinds of includes and a literal ignore agree with an absolute base directory, and with one
that begins with a name. -/
theorem select_respects_ignores_anchored :
    let tree := ({ FileTree.empty with working := ["home".toList] }.write
      ⟨"src/gui/A.java".toList⟩ (.text [])).write ⟨"src/logic/B.java".toList⟩ (.text [])
    let absolute : Selection :=
      ⟨⟨"/home/src".toList⟩, ["*".toList, "gui".toList], ["gui".toList], ["java".toList], []⟩
    let relative : Selection := { absolute with base := ⟨"src".toList⟩ }
    absolute.files tree = [⟨"/home/src/logic/B.java".toList⟩] ∧
      relative.files tree = [⟨"src/logic/B.java".toList⟩] ∧
      (∀ file ∈ absolute.files tree,
        ¬ tree.placeOf (absolute.base.join ⟨"gui".toList⟩) <+: tree.placeOf file) ∧
      ∀ file ∈ relative.files tree,
        ¬ tree.placeOf (relative.base.join ⟨"gui".toList⟩) <+: tree.placeOf file := by
  intro tree absolute relative
  have named : tree.WellNamed := by
    refine FileTree.WellNamed.write (.write ?_ _ _) _ _
    intro item inside name hn
    obtain rfl := List.mem_singleton.mp inside
    obtain rfl := List.mem_singleton.mp hn
    exact ⟨⟨by decide, by decide⟩, by decide⟩
  have down : (Path.mk "gui".toList).LeadsDown := ⟨by decide, by decide⟩
  have behind_root : ∀ item ∈ absolute.includes, KeepsBase absolute.base item := by
    intro item inside
    simp only [absolute, List.mem_cons, List.not_mem_nil, or_false] at inside
    rcases inside with rfl | rfl
    · have down : ∀ part ∈ Glob.partsBehindHere (absolute.base.join ⟨"*".toList⟩).chars,
          Glob.specialOf part = [] := by decide
      exact .wild (by decide) (by decide) (.inr (by decide)) (by decide)
        ⟨fun relative => absurd relative (by decide), fun part hp => .inr (down part hp)⟩
    · exact .plain (by decide) down
  have behind_name : ∀ item ∈ relative.includes, KeepsBase relative.base item := by
    intro item inside
    simp only [relative, absolute, List.mem_cons, List.not_mem_nil, or_false] at inside
    rcases inside with rfl | rfl
    · have source : IsEntryName "src".toList := ⟨⟨by decide, by decide⟩, by decide⟩
      have down : ∀ part ∈ Glob.partsBehindHere (relative.base.join ⟨"*".toList⟩).chars,
          Path.isIdle part = false ∧ Glob.specialOf part = [] := by decide
      exact .wild (by decide) (by decide) (.inl ⟨_, rfl, source⟩) (by decide)
        ⟨fun _ part hp => (down part (List.mem_of_head? hp)).1, fun part hp => .inr (down part hp).2⟩
    · exact .plain (by decide) down
  have literal : isPatternText "gui".toList = false := by decide
  have absolute_like : absolute.SpelledLike (absolute.base.join ⟨"gui".toList⟩) :=
    spelledLike_join (by decide) behind_root down
  have relative_like : relative.SpelledLike (relative.base.join ⟨"gui".toList⟩) :=
    spelledLike_join (by decide) behind_name down
  have among : "gui".toList ∈ ["gui".toList] := List.mem_singleton_self _
  exact ⟨by decide +kernel, by decide +kernel,
    fun _ => select_respects_ignores named among literal absolute_like,
    fun _ => select_respects_ignores named among literal relative_like⟩

/-- Behind a base directory written with a leading `.`, no literal ignore covers what a pattern
finds. -/
theorem covers_eq_false_of_pattern {tree : FileTree} (named : tree.WellNamed) {base : Path}
    (here : base.components.head? = some .here) {item : List Char}
    (wild : isPatternText item = true) (descends : Glob.Descends (base.join ⟨item⟩).chars)
    {start : Path} (found : start ∈ includedBy tree base item) {file : Path} {content : Content}
    (walked : (file, .file content) ∈ (tree.walk? start).getD []) {ignored : List Char}
    (literal : isPatternText ignored = false) (relative : (Path.mk ignored).isAbsolute = false) :
    covers base ignored file = false := by
  have nonempty : base.chars ≠ [] := by
    obtain ⟨chars⟩ := base
    rintro rfl
    exact absurd here (by decide)
  obtain ⟨way, start_nonempty, rfl, entries, -⟩ :=
    FileTree.exists_way_of_file_mem_walk? named walked
  rw [includedBy, if_pos wild] at found
  obtain ⟨segments, -, spelled, -⟩ :=
    Glob.mem_directories named (isPatternText_join _ wild) descends found
  obtain ⟨tail, front⟩ := List.head?_eq_some_iff.mp here
  rw [covers, if_neg (by simp [literal]), Path.startsWith, Bool.eq_false_iff, ne_eq,
    List.isPrefixOf_iff_prefix,
    Path.components_descend start_nonempty fun name hn => (entries name hn).toLeadsOn, spelled,
    Path.components_join nonempty relative, front, List.append_assoc, ← List.map_append, Path.anchor]
  intro begins
  split at begins
  · exact absurd (List.cons_prefix_cons.mp begins).1 (by simp)
  · exact absurd (begins.subset List.mem_cons_self) (by simp [Path.components, Path.segments])

/-- The pattern drops the base directory `.`, and the ignore keeps it. -/
theorem ignored_selected :
    let tree := FileTree.empty.write ⟨"gui/A.java".toList⟩ (.text [])
    let selection : Selection :=
      ⟨.here, ["*".toList], ["gui".toList], ["java".toList], ["fxml".toList]⟩
    selection.files tree = [⟨"gui/A.java".toList⟩] ∧
      tree.placeOf (selection.base.join ⟨"gui".toList⟩)
        <+: tree.placeOf ⟨"gui/A.java".toList⟩ :=
  ⟨by decide +kernel, by decide⟩

/-! ## Each file once -/

/-- No file can be found under two spellings: plain includes are relative ways, patterns have no idle
parts and begin alike, and where both are used the base directory is a way from where the patterns
begin, since a plain include keeps what a pattern spells anew. -/
structure SpelledOneWay (selection : Selection) : Prop where
  plain : ∀ item ∈ selection.includes, isPatternText item = false →
    (Path.mk item).isAbsolute = false ∧ (Path.mk item).IsWay
  wild : ∀ item ∈ selection.includes, isPatternText item = true →
    ∀ part ∈ Glob.partsBehindHere (selection.base.join ⟨item⟩).chars,
      Path.isIdle part = false ∧ Glob.specialOf part = []
  alike : ∀ item ∈ selection.includes, isPatternText item = true →
    ∀ item' ∈ selection.includes, isPatternText item' = true →
      (selection.base.join ⟨item⟩).anchor = (selection.base.join ⟨item'⟩).anchor
  mixed : ∀ item ∈ selection.includes, isPatternText item = false →
    ∀ item' ∈ selection.includes, isPatternText item' = true →
      selection.base.IsWay ∧ (selection.base.join ⟨item'⟩).anchor = selection.base.anchor

/-- The directories that a pattern finds are spelled by names of entries only behind where the pattern
begins. -/
theorem exists_descend_of_pattern {tree : FileTree} (named : tree.WellNamed) {base : Path}
    {item : List Char} (wild : isPatternText item = true)
    (parts : ∀ part ∈ Glob.partsBehindHere (base.join ⟨item⟩).chars,
      Path.isIdle part = false ∧ Glob.specialOf part = [])
    {start : Path}
    (found : start ∈ (Glob.directories tree (base.join ⟨item⟩).chars).toOption.getD []) :
    ∃ names, start = (base.join ⟨item⟩).anchor.descend names ∧ ∀ name ∈ names, IsEntryName name := by
  have descends : Glob.Descends (base.join ⟨item⟩).chars :=
    ⟨fun _ part hp => (parts part (List.mem_of_head? hp)).1, fun part hp => .inr (parts part hp).2⟩
  obtain ⟨segments, rfl, -, spelling⟩ :=
    Glob.mem_directories named (isPatternText_join base wild) descends found
  refine ⟨segments, rfl, fun segment hs => ?_⟩
  obtain ⟨leads, kept⟩ := spelling segment hs
  refine ⟨leads, ?_⟩
  by_contra idle
  have idle : Path.isIdle segment = true := by simpa using idle
  exact absurd ((parts segment (kept idle)).1.symm.trans idle) (by decide)

/-- The files found below a plain include are spelled by names of entries behind the base
directory. -/
theorem exists_descend_of_plain {base : Path} {item : List Char}
    (relative : (Path.mk item).isAbsolute = false) (item_way : (Path.mk item).IsWay)
    {way : List (List Char)} (entries : ∀ name ∈ way, IsEntryName name)
    (ends : way = [] → (base.join ⟨item⟩).chars.getLast? ≠ some '/') :
    ∃ names, names ≠ [] ∧ (base.join ⟨item⟩).descend way = base.descend names ∧
      ∀ name ∈ names, IsEntryName name := by
  rw [Path.getLast?_join _ (item_way.beginsWithName relative).nonempty] at ends
  refine ⟨(Path.mk item).stem ++ way, ?_, item_way.descend_join relative base entries ends, ?_⟩
  · rw [Path.stem_of_relative relative]
    exact List.append_ne_nil_of_left_ne_nil (Path.trunk_ne_nil _) _
  · exact fun name hn => (List.mem_append.mp hn).elim (item_way name) (entries name)

/-- All selected files are spelled by names of entries behind one and the same path. -/
theorem SpelledOneWay.exists_root {selection : Selection} (one : selection.SpelledOneWay)
    {tree : FileTree} (named : tree.WellNamed) :
    ∃ root : Path, ∀ file ∈ selection.files tree,
      ∃ names, file = root.descend names ∧ ∀ name ∈ names, IsEntryName name := by
  -- Where there are patterns, the names of the base directory are part of the spelling.
  by_cases patterns : ∃ item ∈ selection.includes, isPatternText item = true
  · obtain ⟨item₀, inside₀, wild₀⟩ := patterns
    refine ⟨(selection.base.join ⟨item₀⟩).anchor, fun file selected => ?_⟩
    obtain ⟨start, way, among, -, rfl, entries, ends, -⟩ := exists_way_of_mem_files named selected
    rcases mem_startingPoints_cases among with ⟨none, rfl⟩ | ⟨item, inside, literal, rfl⟩ |
      ⟨item, inside, wild, found⟩
    · rw [none] at inside₀
      exact absurd inside₀ List.not_mem_nil
    · obtain ⟨relative, item_way⟩ := one.plain item inside literal
      obtain ⟨base_way, begins⟩ := one.mixed item inside literal item₀ inside₀ wild₀
      obtain ⟨names, nonempty, spelled, names_entries⟩ :=
        exists_descend_of_plain relative item_way entries ends
      rw [spelled, begins, base_way.descend_eq nonempty names_entries]
      exact ⟨_, rfl, fun name hn => (List.mem_append.mp hn).elim (base_way name) (names_entries name)⟩
    · obtain ⟨front, rfl, front_entries⟩ :=
        exists_descend_of_pattern named wild (one.wild item inside wild) found
      rw [one.alike item₀ inside₀ wild₀ item inside wild, ← Path.descend_append]
      exact ⟨_, rfl, fun name hn =>
        (List.mem_append.mp hn).elim (front_entries name) (entries name)⟩
  · refine ⟨selection.base, fun file selected => ?_⟩
    obtain ⟨start, way, among, -, rfl, entries, ends, -⟩ := exists_way_of_mem_files named selected
    rcases mem_startingPoints_cases among with ⟨none, rfl⟩ | ⟨item, inside, literal, rfl⟩ |
      ⟨item, inside, wild, found⟩
    · exact ⟨way, rfl, entries⟩
    · obtain ⟨relative, item_way⟩ := one.plain item inside literal
      obtain ⟨names, -, spelled, names_entries⟩ :=
        exists_descend_of_plain relative item_way entries ends
      exact ⟨names, spelled, names_entries⟩
    · exact absurd ⟨item, inside, wild⟩ patterns

theorem nodup_files (selection : Selection) (tree : FileTree) : (selection.files tree).Nodup := by
  refine List.nodup_append.mpr ⟨Path.nodup_sorted _, Path.nodup_sorted _, ?_⟩
  rintro source inside markup inside' rfl
  exact not_mem_markup inside inside'

/-- No file of the tree is selected twice. -/
theorem nodup_placeOf_select {selection : Selection} (one : selection.SpelledOneWay)
    {tree : FileTree} (named : tree.WellNamed) :
    ((selection.files tree).map tree.placeOf).Nodup := by
  obtain ⟨root, spelled⟩ := one.exists_root named
  refine List.Nodup.map_on (fun file selected file' selected' same => ?_)
    (nodup_files selection tree)
  obtain ⟨names, rfl, entries⟩ := spelled file selected
  obtain ⟨names', rfl, entries'⟩ := spelled file' selected'
  rw [FileTree.placeOf_descend _ root fun name hn => (entries name hn).toLeadsOn,
    FileTree.placeOf_descend _ root fun name hn => (entries' name hn).toLeadsOn,
    Path.solid_eq_self entries, Path.solid_eq_self entries', List.append_cancel_left_eq] at same
  rw [same]

/-- A plain include beside a pattern that finds the same directory, behind a relative and an absolute
base directory. -/
theorem nodup_placeOf_select_overlapping :
    let tree := FileTree.empty.write ⟨"src/gui/A.java".toList⟩ (.text [])
    let relative : Selection :=
      ⟨⟨"src".toList⟩, ["gui".toList, "*".toList], [], ["java".toList], []⟩
    let absolute : Selection := { relative with base := ⟨"/src".toList⟩ }
    (⟨"src/gui/A.java".toList⟩ ∈ relative.files tree ∧
      ((relative.files tree).map tree.placeOf).Nodup) ∧
    ⟨"/src/gui/A.java".toList⟩ ∈ absolute.files tree ∧
      ((absolute.files tree).map tree.placeOf).Nodup := by
  intro tree relative absolute
  have named : tree.WellNamed := FileTree.wellNamed_empty.write _ _
  have entry : ∀ name ∈ ["src".toList, "gui".toList], IsEntryName name := by
    simp only [List.mem_cons, List.not_mem_nil, or_false]
    rintro name (rfl | rfl)
    · exact ⟨⟨by decide, by decide⟩, by decide⟩
    · exact ⟨⟨by decide, by decide⟩, by decide⟩
  have plain : ∀ item ∈ relative.includes, isPatternText item = false →
      (Path.mk item).isAbsolute = false ∧ (Path.mk item).IsWay := by
    simp only [relative, List.mem_cons, List.not_mem_nil, or_false]
    rintro item (rfl | rfl) literal
    · refine ⟨by decide, fun name inside => entry name ?_⟩
      have stem : (Path.mk "gui".toList).stem = ["gui".toList] := by decide
      rw [stem] at inside
      simp [List.mem_singleton.mp inside]
    · exact absurd literal (by decide)
  have base_way : ∀ base : Path, base.stem = ["src".toList] → base.IsWay := by
    intro base stem name inside
    rw [stem] at inside
    exact entry name (by simp [List.mem_singleton.mp inside])
  have begins : ∀ selection : Selection, selection.includes = relative.includes →
      ∀ item ∈ selection.includes, (selection.base.join ⟨item⟩).anchor = selection.base.anchor := by
    intro selection same item inside
    rw [same] at inside
    simp only [relative, List.mem_cons, List.not_mem_nil, or_false] at inside
    rcases inside with rfl | rfl
    · exact Path.anchor_join _ (by decide)
    · exact Path.anchor_join _ (by decide)
  have relative_one : relative.SpelledOneWay :=
    ⟨plain, by decide, by decide,
      fun _ _ _ item inside _ => ⟨base_way _ (by decide), begins relative rfl item inside⟩⟩
  have absolute_one : absolute.SpelledOneWay :=
    ⟨plain, by decide, by decide,
      fun _ _ _ item inside _ => ⟨base_way _ (by decide), begins absolute rfl item inside⟩⟩
  exact ⟨⟨mem_files_iff.mpr (by decide), nodup_placeOf_select relative_one named⟩,
    mem_files_iff.mpr (by decide), nodup_placeOf_select absolute_one named⟩

/-- The plain include keeps the base directory `.`, and the pattern drops it. -/
theorem selected_twice :
    let tree := FileTree.empty.write ⟨"gui/A.java".toList⟩ (.text [])
    let selection : Selection :=
      ⟨.here, ["gui".toList, "*".toList], [], ["java".toList], ["fxml".toList]⟩
    ⟨"./gui/A.java".toList⟩ ∈ selection.files tree ∧ ⟨"gui/A.java".toList⟩ ∈ selection.files tree ∧
      ¬ ((selection.files tree).map tree.placeOf).Nodup := by
  intro tree selection
  have plain : ⟨"./gui/A.java".toList⟩ ∈ selection.files tree := mem_files_iff.mpr (by decide)
  have found : ⟨"gui/A.java".toList⟩ ∈ selection.files tree := mem_files_iff.mpr (by decide)
  refine ⟨plain, found, fun once => ?_⟩
  have same := List.inj_on_of_nodup_map once plain found (by decide)
  exact absurd same (by decide)

end Selection

end LocaleKeys
