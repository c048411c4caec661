import LocaleKeys.Proofs.Files.Selection
import LocaleKeys.Proofs.Glob.Joined

/-!
# What includes reach

A plain include is a path behind the base directory. A pattern is searched for behind the base
directory, and the base directory is part of what is searched for, so its name is read as a pattern
too. Where that changes nothing (`KeepsBelow`), no selected file lies outside of the base directory,
and a pattern leads to the directories that it stands for (`includes_stay_below`). It does change
something: a base directory may stand for another one, a wildcard may stand for the directory above,
and what is found behind `.//` is nothing (`includes_leave_base`).
-/

namespace LocaleKeys.Selection

open Glob (isPatternText KeepsBelow Matches landingBehind)

section Reach

variable {tree : FileTree} {base : Path} {place : Place}

/-- The path leads to a place below another one, or to a directory at that place. -/
def ReachesBelow (tree : FileTree) (place : Place) (path : Path) : Prop :=
  ∃ names, tree.placeOf path = place ++ names ∧
    (names = [] → ∀ place' content, tree.find path ≠ .ok (place', .file content))

theorem reachesBelow_of_isDirectory {path : Path} (h : tree.isDirectory path = true)
    {names : List (List Char)} (leads : tree.placeOf path = place ++ names) :
    ReachesBelow tree place path := by
  refine ⟨names, leads, fun _ place' content found => ?_⟩
  obtain ⟨other, found'⟩ := FileTree.isDirectory_eq_true_iff.mp h
  rw [found] at found'
  exact absurd found' (by simp)

variable (at_base : tree.find base = .ok (place, .directory))

include at_base in
theorem reachesBelow_join {path : Path} (down : path.LeadsDown) :
    ReachesBelow tree place (base.join path) := by
  have leads : tree.placeOf base = place := FileTree.placeOf_of_find at_base
  refine ⟨Path.solid path.segments, ?_, fun idle place' content found => ?_⟩
  · rw [FileTree.placeOf_join _ _ down.relative, leads,
      Place.foldl_go_of_leadsOn fun _ h => down.leadsOn h]
  · -- Idle parts lead on to the base directory itself.
    have nonempty := FileTree.nonempty_of_find at_base
    have followed := (FileTree.find_eq_ok_iff.mp found).2.2.2
    have front := (FileTree.find_eq_ok_iff.mp at_base).2.2.2
    rw [← FileTree.follow_solid, ← Path.solid_trunk, FileTree.follow_solid] at front
    have stays : tree.follow place .directory path.segments = .ok (place, .directory) := by
      rw [← FileTree.follow_solid, idle]
      rfl
    rw [FileTree.origin_join _ nonempty down.relative, Path.segments_join nonempty down.relative,
      FileTree.follow_append, front] at followed
    exact absurd (followed.symm.trans stays) (by simp)

include at_base in
theorem placeOf_landingBehind {way : List (List Char)} (on : ∀ part ∈ way, LeadsOn part) :
    tree.placeOf (landingBehind base way) = place ++ Path.solid way := by
  have leads : tree.placeOf base = place := FileTree.placeOf_of_find at_base
  rw [FileTree.placeOf_eq, ← FileTree.foldl_go_stem] at leads
  have unbroken : ∀ part ∈ base.stem ++ way, '/' ∉ part := by
    intro part inside
    rcases List.mem_append.mp inside with before | later
    · exact Path.unbroken_of_mem_segments (Path.mem_segments_of_mem_stem before)
    · exact (on part later).unbroken
  rw [landingBehind, Glob.placeOf_landing tree _ unbroken, List.foldl_append, Glob.placeOf_startOf,
    leads, Place.foldl_go_of_leadsOn on]

end Reach

section Below

variable {tree : FileTree} {selection : Selection} {place : Place}

/-- Every directory to walk through is the base directory or below it. -/
theorem reachesBelow_of_mem_startingPoints (named : tree.WellNamed)
    (at_base : tree.find selection.base = .ok (place, .directory))
    (down : ∀ item ∈ selection.includes, (Path.mk item).LeadsDown)
    (keeps : ∀ item ∈ selection.includes, isPatternText item = true →
      KeepsBelow selection.base item)
    {start : Path} (h : start ∈ selection.startingPoints tree) : ReachesBelow tree place start := by
  rcases mem_startingPoints_cases h with ⟨-, rfl⟩ | ⟨item, among, -, rfl⟩ |
    ⟨item, among, wild, found⟩
  · have leads : tree.placeOf selection.base = place ++ [] := by
      rw [FileTree.placeOf_of_find at_base, List.append_nil]
    exact reachesBelow_of_isDirectory (FileTree.isDirectory_eq_true_iff.mpr ⟨_, at_base⟩) leads
  · exact reachesBelow_join at_base (down item among)
  · have below := keeps item among wild
    have nonempty := FileTree.nonempty_of_find at_base
    obtain ⟨way, matched, rfl, leads⟩ :=
      (Glob.mem_directories_join named nonempty (down item among).relative below).mp found
    exact reachesBelow_of_isDirectory leads
      (placeOf_landingBehind at_base (matched.leadsOn below.down))

/-- What a walk finds is below the base directory if its start is. -/
theorem exists_names_of_file_mem_walk? (named : tree.WellNamed) {start file : Path}
    {content : Content} (reaches : ReachesBelow tree place start)
    (walked : (file, .file content) ∈ (tree.walk? start).getD []) :
    ∃ names, names ≠ [] ∧ tree.placeOf file = place ++ names := by
  obtain ⟨names, at_start, directory⟩ := reaches
  obtain ⟨place', node, way, found, rfl, here | deeper⟩ := FileTree.exists_way_of_mem_walk? walked
  · obtain ⟨rfl, rfl⟩ := here
    exact ⟨names, fun nothing => directory nothing place' content found, at_start⟩
  · obtain ⟨nonempty, stored⟩ := FileTree.mem_below_iff.mp deeper
    have entries : ∀ name ∈ way, IsEntryName name :=
      fun name hn => named _ stored name (List.mem_append_right _ hn)
    refine ⟨names ++ way, List.append_ne_nil_of_right_ne_nil _ nonempty, ?_⟩
    rw [FileTree.placeOf_descend _ start fun name hn => (entries name hn).toLeadsOn, at_start,
      Path.solid_eq_self entries, List.append_assoc]

/-- No selected file is outside of the base directory, and a pattern leads to the directories below
it that are there at the end of a way that the pattern stands for. -/
theorem includes_stay_below (named : tree.WellNamed)
    (at_base : tree.find selection.base = .ok (place, .directory))
    (down : ∀ item ∈ selection.includes, (Path.mk item).LeadsDown)
    (keeps : ∀ item ∈ selection.includes, isPatternText item = true →
      KeepsBelow selection.base item) :
    (∀ file ∈ selection.files tree, ∃ names, names ≠ [] ∧ tree.placeOf file = place ++ names) ∧
    ∀ item ∈ selection.includes, isPatternText item = true → ∀ names,
      (∃ start ∈ includedBy tree selection.base item, tree.placeOf start = place ++ names) ↔
      ∃ way, Matches item way ∧ Path.solid way = names ∧
        tree.isDirectory (landingBehind selection.base way) = true := by
  have nonempty := FileTree.nonempty_of_find at_base
  constructor
  · intro file selected
    obtain ⟨start, among, content, walked, -⟩ :=
      exists_start_of_mem_candidates (mem_files_iff.mp selected).1
    exact exists_names_of_file_mem_walk? named
      (reachesBelow_of_mem_startingPoints named at_base down keeps among) walked
  · intro item among wild names
    have below := keeps item among wild
    have relative := (down item among).relative
    rw [includedBy, if_pos wild]
    constructor
    · rintro ⟨start, found, at_start⟩
      obtain ⟨way, matched, rfl, leads⟩ :=
        (Glob.mem_directories_join named nonempty relative below).mp found
      rw [placeOf_landingBehind at_base (matched.leadsOn below.down),
        List.append_cancel_left_eq] at at_start
      exact ⟨way, matched, at_start, leads⟩
    · rintro ⟨way, matched, rfl, leads⟩
      have found := (Glob.mem_directories_join named nonempty relative below).mpr
        ⟨way, matched, rfl, leads⟩
      exact ⟨_, found, placeOf_landingBehind at_base (matched.leadsOn below.down)⟩

/-- A pattern behind a base directory with a leading `.`, and behind an absolute one. -/
theorem includes_stay_below_star :
    let tree := (FileTree.empty.write ⟨"src/gui/A.java".toList⟩ (.text [])).write
      ⟨"gui/B.java".toList⟩ (.text [])
    let relative : Selection := ⟨⟨"./src".toList⟩, ["g*".toList], [], ["java".toList], []⟩
    let absolute : Selection := { relative with base := ⟨"/src".toList⟩ }
    (tree.find relative.base = .ok (["src".toList], .directory) ∧
      relative.files tree = [⟨"src/gui/A.java".toList⟩] ∧
      ∀ file ∈ relative.files tree,
        ∃ names, names ≠ [] ∧ tree.placeOf file = ["src".toList] ++ names) ∧
    (tree.find absolute.base = .ok (["src".toList], .directory) ∧
      absolute.files tree = [⟨"/src/gui/A.java".toList⟩] ∧
      ∀ file ∈ absolute.files tree,
        ∃ names, names ≠ [] ∧ tree.placeOf file = ["src".toList] ++ names) ∧
    ∃ way, Matches "g*".toList way ∧ Path.solid way = ["gui".toList] := by
  intro tree relative absolute
  have named : tree.WellNamed := (FileTree.wellNamed_empty.write _ _).write _ _
  have at_relative : tree.find relative.base = .ok (["src".toList], .directory) := by decide
  have at_absolute : tree.find absolute.base = .ok (["src".toList], .directory) := by decide
  have down : ∀ item ∈ relative.includes, (Path.mk item).LeadsDown := by
    intro item among
    rw [List.mem_singleton.mp among]
    exact ⟨by decide, by decide⟩
  have parts : ∀ part ∈ Glob.patternParts "g*".toList, Glob.LeadsDown part := by
    have parts : Glob.patternParts "g*".toList = ["g*".toList] := by decide
    rw [parts]
    intro part inside
    rw [List.mem_singleton.mp inside]
    exact .inr (by decide)
  have relative_keeps : ∀ item ∈ relative.includes, isPatternText item = true →
      KeepsBelow relative.base item := by
    intro item among _
    rw [List.mem_singleton.mp among]
    exact ⟨by simp [Glob.IsPlain, relative], parts, by decide⟩
  have absolute_keeps : ∀ item ∈ absolute.includes, isPatternText item = true →
      KeepsBelow absolute.base item := by
    intro item among _
    rw [List.mem_singleton.mp among]
    exact ⟨by simp [Glob.IsPlain, absolute], parts, by decide⟩
  obtain ⟨below, leads⟩ := includes_stay_below named at_relative down relative_keeps
  have included : (⟨"src/gui".toList⟩ : Path) ∈ includedBy tree relative.base "g*".toList := by
    decide +kernel
  obtain ⟨way, matched, same, -⟩ := (leads "g*".toList (by decide) (by decide) ["gui".toList]).mp
    ⟨_, included, by decide⟩
  exact ⟨⟨at_relative, by decide +kernel, below⟩, ⟨at_absolute, by decide +kernel,
    (includes_stay_below named at_absolute down absolute_keeps).1⟩, way, matched, same⟩

/-- The base directory `a[b]` is a pattern that stands for `ab`, the wildcard in `.?` stands for a
dot, and the search for `.//src/*` loses its way. -/
theorem includes_leave_base :
    (let tree := (FileTree.empty.write ⟨"a[b]/x/A.java".toList⟩ (.text [])).write
        ⟨"ab/x/B.java".toList⟩ (.text [])
      let selection : Selection := ⟨⟨"a[b]".toList⟩, ["*".toList], [], ["java".toList], []⟩
      tree.find selection.base = .ok (["a[b]".toList], .directory) ∧
        selection.files tree = [⟨"ab/x/B.java".toList⟩] ∧
        ¬ ["a[b]".toList] <+: tree.placeOf ⟨"ab/x/B.java".toList⟩) ∧
    (let tree := (FileTree.empty.write ⟨"src/A.java".toList⟩ (.text [])).write
        ⟨"other/B.java".toList⟩ (.text [])
      let selection : Selection := ⟨⟨"src".toList⟩, [".?".toList], [], ["java".toList], []⟩
      tree.find selection.base = .ok (["src".toList], .directory) ∧
        ⟨"src/../other/B.java".toList⟩ ∈ selection.files tree ∧
        ¬ ["src".toList] <+: tree.placeOf ⟨"src/../other/B.java".toList⟩) ∧
    (let tree := FileTree.empty.write ⟨"src/x/A.java".toList⟩ (.text [])
      let selection : Selection := ⟨⟨".//src".toList⟩, ["*".toList], [], ["java".toList], []⟩
      tree.find selection.base = .ok (["src".toList], .directory) ∧
        Matches "*".toList ["x".toList] ∧ selection.files tree = []) := by
  refine ⟨⟨by decide, by decide +kernel, by decide⟩,
    ⟨by decide, mem_files_iff.mpr (by decide), by decide⟩, by decide, ?_, by decide +kernel⟩
  have entry : IsEntryName "x".toList := ⟨⟨by decide, by decide⟩, by decide⟩
  exact ⟨[.wild ⟨[.anyText]⟩], by decide, .wild entry (by decide) .nil⟩

end Below

end LocaleKeys.Selection
