import Mathlib.Algebra.GroupWithZero.Nat
import LocaleKeys.Proofs.Bytes
import LocaleKeys.Proofs.Files.Selection
import LocaleKeys.Proofs.SortedMap

/-!
# Exactly the selected files

A path is selected if some walk spells it, it is that of a file, no ignore covers it and its extension
is asked for (`Selection.Admits`). The lists of selected files depend on the items of a selection
only, not on their order or on how often they are given (`Rearranges.files_eq`). The number of
directories that no walk could enter does depend on it: an include that is given twice is walked
through twice, so a directory below it counts twice (`inaccessible_includingTwice`).
-/

namespace LocaleKeys

open Glob (isPatternText)

/-- Only its members decide what a list of paths is in order. -/
theorem Path.sorted_congr {paths paths' : List Path} (same : ∀ path, path ∈ paths ↔ path ∈ paths') :
    Path.sorted paths = Path.sorted paths' := by
  refine SortedMap.eq_of_increasing Path.toText (Path.increasing_sorted paths)
    (Path.increasing_sorted paths') fun path => ?_
  rw [Path.mem_sorted, Path.mem_sorted, same]

/-- The paths are in the order of the bytes of their texts, each once. -/
def Path.Increasing (paths : List Path) : Prop :=
  paths.Pairwise fun a b => Text.bytes a.toText < Text.bytes b.toText

theorem Path.sorted_increasing (paths : List Path) : Increasing (Path.sorted paths) :=
  (Path.increasing_sorted paths).imp Text.bytes_lt_of_compare

/-- The path has one of the extensions. -/
def Path.ExtensionIn (path : Path) (extensions : List (List Char)) : Prop :=
  ∃ extension ∈ extensions, path.extension? = some extension

theorem Path.extensionIn_congr {extensions extensions' : List (List Char)}
    (same : ∀ item, item ∈ extensions ↔ item ∈ extensions') (path : Path) :
    path.ExtensionIn extensions ↔ path.ExtensionIn extensions' :=
  exists_congr fun extension => and_congr_left' (same extension)

namespace Selection

/-! ## What is selected -/

section Rules

variable (selection : Selection) (tree : FileTree)

/-- The walks start at the base directory, or at what the includes name: a plain include that leads
somewhere behind the base directory, and each directory that a pattern finds there. -/
inductive StartsAt : Path → Prop where
  | base (none : selection.includes = []) : StartsAt selection.base
  | plain {item : List Char} (among : item ∈ selection.includes)
      (literal : isPatternText item = false)
      (leads : tree.contains (selection.base.join ⟨item⟩) = true) :
      StartsAt (selection.base.join ⟨item⟩)
  | found {item : List Char} {paths : List Path} {start : Path} (among : item ∈ selection.includes)
      (wild : isPatternText item = true)
      (searched : Glob.directories tree (selection.base.join ⟨item⟩).chars = .ok paths)
      (inside : start ∈ paths) : StartsAt start

/-- Some walk spells a file so. The path does not begin with the components of a plain ignore behind
the base directory, and no ignore that is a sound pattern matches it. -/
structure Admits (path : Path) : Prop where
  spelled : ∃ start, selection.StartsAt tree start ∧
    ∃ content, tree.Spells start path (.file content)
  aside : ∀ item ∈ selection.ignores, isPatternText item = false →
    ¬ (selection.base.join ⟨item⟩).components <+: path.components
  unmatched : ∀ item ∈ selection.ignores, isPatternText item = true →
    ∀ pattern, Glob.Pattern.parse item = .ok pattern → pattern.accepts path.chars = false

end Rules

variable {selection other : Selection} {tree : FileTree}

theorem mem_includedBy_iff {base : Path} {item : List Char} {start : Path} :
    start ∈ includedBy tree base item ↔
      (isPatternText item = false ∧ tree.contains (base.join ⟨item⟩) = true ∧
        start = base.join ⟨item⟩) ∨
      (isPatternText item = true ∧ ∃ paths,
        Glob.directories tree (base.join ⟨item⟩).chars = .ok paths ∧ start ∈ paths) := by
  rw [includedBy]
  cases isPatternText item with
  | true => cases Glob.directories tree (base.join ⟨item⟩).chars <;> simp [Except.toOption]
  | false => cases tree.contains (base.join ⟨item⟩) <;> simp

theorem mem_startingPoints_iff {start : Path} :
    start ∈ selection.startingPoints tree ↔ selection.StartsAt tree start := by
  rw [startingPoints]
  by_cases none : selection.includes = []
  · rw [if_pos (by simp [none]), List.mem_singleton]
    constructor
    · rintro rfl
      exact .base none
    · intro starts
      cases starts with
      | base => rfl
      | plain among => simp [none] at among
      | found among => simp [none] at among
  · rw [if_neg (by simpa using none), List.mem_flatMap]
    constructor
    · rintro ⟨item, among, named⟩
      rcases mem_includedBy_iff.mp named with ⟨literal, leads, rfl⟩ | ⟨wild, paths, searched, inside⟩
      · exact .plain among literal leads
      · exact .found among wild searched inside
    · intro starts
      cases starts with
      | base empty => exact absurd empty none
      | plain among literal leads =>
        exact ⟨_, among, mem_includedBy_iff.mpr (.inl ⟨literal, leads, rfl⟩)⟩
      | found among wild searched inside =>
        exact ⟨_, among, mem_includedBy_iff.mpr (.inr ⟨wild, _, searched, inside⟩)⟩

theorem covers_eq_true_iff {base path : Path} {item : List Char} :
    covers base item path = true ↔
      (isPatternText item = false ∧ (base.join ⟨item⟩).components <+: path.components) ∨
      (isPatternText item = true ∧
        ∃ pattern, Glob.Pattern.parse item = .ok pattern ∧ pattern.accepts path.chars = true) := by
  rw [covers]
  cases isPatternText item with
  | true => cases Glob.Pattern.parse item <;> simp
  | false => simp [Path.startsWith]

theorem isIgnored_eq_false_iff {path : Path} :
    selection.isIgnored path = false ↔
      (∀ item ∈ selection.ignores, isPatternText item = false →
        ¬ (selection.base.join ⟨item⟩).components <+: path.components) ∧
      ∀ item ∈ selection.ignores, isPatternText item = true →
        ∀ pattern, Glob.Pattern.parse item = .ok pattern → pattern.accepts path.chars = false := by
  simp only [isIgnored, List.any_eq_false, covers_eq_true_iff, not_or, not_and, not_exists,
    Bool.not_eq_true]
  exact forall₂_and

theorem mem_candidates_iff {path : Path} :
    path ∈ selection.candidates tree ↔ selection.Admits tree path := by
  constructor
  · intro inside
    obtain ⟨start, among, content, walked, kept⟩ := exists_start_of_mem_candidates inside
    obtain ⟨aside, unmatched⟩ := isIgnored_eq_false_iff.mp kept
    exact ⟨⟨start, mem_startingPoints_iff.mp among, content, FileTree.mem_walk?_iff.mp walked⟩,
      aside, unmatched⟩
  · rintro ⟨⟨start, starts, content, spelled⟩, aside, unmatched⟩
    have kept := isIgnored_eq_false_iff.mpr ⟨aside, unmatched⟩
    refine List.mem_filterMap.mpr ⟨(path, .file content), ?_, by simp [kept]⟩
    exact List.mem_flatMap.mpr
      ⟨start, mem_startingPoints_iff.mpr starts, FileTree.mem_walk?_iff.mpr spelled⟩

theorem hasExtension_eq_true_iff {extensions : List (List Char)} {path : Path} :
    hasExtension extensions path = true ↔ path.ExtensionIn extensions := by
  rw [hasExtension, Option.any_eq_true]
  simp only [Path.ExtensionIn, List.contains_iff_mem]
  exact exists_congr fun extension => and_comm

theorem mem_filter_isSource_iff {path : Path} :
    path ∈ (selection.candidates tree).filter selection.isSource ↔
      selection.Admits tree path ∧ path.ExtensionIn selection.sourceExtensions := by
  rw [List.mem_filter, mem_candidates_iff, isSource, hasExtension_eq_true_iff]

theorem mem_filter_isMarkup_iff {path : Path} :
    path ∈ (selection.candidates tree).filter selection.isMarkup ↔
      selection.Admits tree path ∧ path.ExtensionIn selection.markupExtensions ∧
        ¬ path.ExtensionIn selection.sourceExtensions := by
  rw [List.mem_filter, mem_candidates_iff, isMarkup, Bool.and_eq_true, Bool.not_eq_true',
    Bool.eq_false_iff, Ne, isSource, hasExtension_eq_true_iff, hasExtension_eq_true_iff]

/-! ## The same items in another order -/

/-- The other selection asks for the same items, in any order and any number of times. -/
structure Rearranges (other selection : Selection) : Prop where
  base_eq : other.base = selection.base
  includes : ∀ item, item ∈ other.includes ↔ item ∈ selection.includes
  ignores : ∀ item, item ∈ other.ignores ↔ item ∈ selection.ignores
  sourceExtensions : ∀ item, item ∈ other.sourceExtensions ↔ item ∈ selection.sourceExtensions
  markupExtensions : ∀ item, item ∈ other.markupExtensions ↔ item ∈ selection.markupExtensions

namespace Rearranges

theorem symm (h : other.Rearranges selection) : selection.Rearranges other where
  base_eq := h.base_eq.symm
  includes item := (h.includes item).symm
  ignores item := (h.ignores item).symm
  sourceExtensions item := (h.sourceExtensions item).symm
  markupExtensions item := (h.markupExtensions item).symm

theorem includes_eq_nil (h : other.Rearranges selection) (none : selection.includes = []) :
    other.includes = [] := by
  rw [List.eq_nil_iff_forall_not_mem] at none ⊢
  exact fun item inside => none item ((h.includes item).mp inside)

theorem startsAt (h : other.Rearranges selection) {start : Path}
    (starts : other.StartsAt tree start) : selection.StartsAt tree start := by
  cases starts with
  | base none =>
    rw [h.base_eq]
    exact .base (h.symm.includes_eq_nil none)
  | plain among literal leads =>
    rw [h.base_eq] at leads ⊢
    exact .plain ((h.includes _).mp among) literal leads
  | found among wild searched inside =>
    rw [h.base_eq] at searched
    exact .found ((h.includes _).mp among) wild searched inside

theorem admits (h : other.Rearranges selection) {path : Path} (admits : other.Admits tree path) :
    selection.Admits tree path where
  spelled := by
    obtain ⟨start, starts, spelled⟩ := admits.spelled
    exact ⟨start, h.startsAt starts, spelled⟩
  aside item inside := by
    rw [← h.base_eq]
    exact admits.aside item ((h.ignores item).mpr inside)
  unmatched item inside := admits.unmatched item ((h.ignores item).mpr inside)

theorem admits_iff (h : other.Rearranges selection) {path : Path} :
    other.Admits tree path ↔ selection.Admits tree path :=
  ⟨h.admits, h.symm.admits⟩

/-- The same files are selected. -/
theorem files_eq (h : other.Rearranges selection) (tree : FileTree) :
    (other.select tree).sources = (selection.select tree).sources ∧
      (other.select tree).markup = (selection.select tree).markup := by
  constructor
  · refine Path.sorted_congr fun path => ?_
    rw [mem_filter_isSource_iff, mem_filter_isSource_iff, h.admits_iff,
      Path.extensionIn_congr h.sourceExtensions]
  · refine Path.sorted_congr fun path => ?_
    rw [mem_filter_isMarkup_iff, mem_filter_isMarkup_iff, h.admits_iff,
      Path.extensionIn_congr h.sourceExtensions, Path.extensionIn_congr h.markupExtensions]

theorem select_eq (h : other.Rearranges selection)
    (counted : (other.select tree).inaccessible = (selection.select tree).inaccessible) :
    other.select tree = selection.select tree := by
  obtain ⟨sources, markup⟩ := h.files_eq tree
  calc other.select tree
      = ⟨(other.select tree).sources, (other.select tree).markup,
          (other.select tree).inaccessible⟩ := rfl
    _ = ⟨(selection.select tree).sources, (selection.select tree).markup,
          (selection.select tree).inaccessible⟩ := by rw [sources, markup, counted]
    _ = selection.select tree := rfl

end Rearranges

/-! ## Directories that cannot be entered -/

theorem inaccessible_eq_sum :
    (selection.select tree).inaccessible =
      ((selection.startingPoints tree).map tree.inaccessible).sum :=
  List.sum_eq_foldl.symm

theorem inaccessible_eq_zero_iff :
    (selection.select tree).inaccessible = 0 ↔
      ∀ start, selection.StartsAt tree start → tree.inaccessible start = 0 := by
  rw [inaccessible_eq_sum, List.sum_eq_zero_iff_forall_eq_nat, List.forall_mem_map]
  simp only [mem_startingPoints_iff]

/-- In another order the includes lead to the same walks. -/
theorem inaccessible_eq_of_perm (base : other.base = selection.base)
    (perm : other.includes.Perm selection.includes) :
    (other.select tree).inaccessible = (selection.select tree).inaccessible := by
  have starts : (other.startingPoints tree).Perm (selection.startingPoints tree) := by
    rw [startingPoints, startingPoints, base, perm.isEmpty_eq]
    split
    · exact .refl _
    · exact perm.flatMap_right _
  rw [inaccessible_eq_sum, inaccessible_eq_sum]
  exact (starts.map _).sum_nat

/-- The selection with all includes given a second time. -/
def includingTwice (selection : Selection) : Selection :=
  { selection with includes := selection.includes ++ selection.includes }

theorem rearranges_includingTwice (selection : Selection) :
    selection.includingTwice.Rearranges selection where
  base_eq := rfl
  includes item := by rw [includingTwice, List.mem_append, or_self]
  ignores _ := Iff.rfl
  sourceExtensions _ := Iff.rfl
  markupExtensions _ := Iff.rfl

/-- Every walk is made as often as an include leads to its start. -/
theorem inaccessible_includingTwice (includes : selection.includes ≠ []) (tree : FileTree) :
    (selection.includingTwice.select tree).inaccessible =
      (selection.select tree).inaccessible + (selection.select tree).inaccessible := by
  have starts : selection.includingTwice.startingPoints tree =
      selection.startingPoints tree ++ selection.startingPoints tree := by
    rw [startingPoints, startingPoints, if_neg (by simpa [includingTwice] using includes),
      if_neg (by simpa using includes), includingTwice, List.flatMap_append]
  rw [inaccessible_eq_sum, inaccessible_eq_sum, starts, List.map_append, List.sum_append_nat]

theorem rearranged_select_eq_iff :
    (∀ other : Selection, other.Rearranges selection →
        other.select tree = selection.select tree) ↔
      selection.includes = [] ∨ (selection.select tree).inaccessible = 0 := by
  constructor
  · intro same
    by_contra counted
    obtain ⟨includes, counted⟩ := not_or.mp counted
    have twice := inaccessible_includingTwice includes tree
    rw [same _ (rearranges_includingTwice selection)] at twice
    omega
  · rintro (none | zero) other h
    · exact h.select_eq (inaccessible_eq_of_perm h.base_eq (by rw [none, h.includes_eq_nil none]))
    · refine h.select_eq ?_
      rw [zero, inaccessible_eq_zero_iff]
      exact fun start starts => inaccessible_eq_zero_iff.mp zero start (h.startsAt starts)

/-- The source files are the admitted files with an extension of source files, and the markup files
are those of the others that have an extension of markup files, both in increasing order. The order
of the items of the selection does not matter, and neither does how often they are given, except
that a directory that cannot be entered counts once for each walk that meets it. -/
theorem select_exact (selection : Selection) (tree : FileTree) :
    (∀ path, path ∈ (selection.select tree).sources ↔
      selection.Admits tree path ∧ path.ExtensionIn selection.sourceExtensions) ∧
    (∀ path, path ∈ (selection.select tree).markup ↔
      selection.Admits tree path ∧ path.ExtensionIn selection.markupExtensions ∧
        ¬ path.ExtensionIn selection.sourceExtensions) ∧
    Path.Increasing (selection.select tree).sources ∧
    Path.Increasing (selection.select tree).markup ∧
    (selection.select tree).sources.Disjoint (selection.select tree).markup ∧
    (∀ other : Selection, other.Rearranges selection →
      (other.select tree).sources = (selection.select tree).sources ∧
        (other.select tree).markup = (selection.select tree).markup ∧
        (other.includes.Perm selection.includes → other.select tree = selection.select tree)) ∧
    ((∀ other : Selection, other.Rearranges selection →
        other.select tree = selection.select tree) ↔
      selection.includes = [] ∨ (selection.select tree).inaccessible = 0) := by
  refine ⟨fun path => ?_, fun path => ?_, Path.sorted_increasing _, Path.sorted_increasing _,
    fun path source markup => not_mem_markup source markup, fun other h => ?_,
    rearranged_select_eq_iff⟩
  · rw [select, Path.mem_sorted, mem_filter_isSource_iff]
  · rw [select, Path.mem_sorted, mem_filter_isMarkup_iff]
  · obtain ⟨sources, markup⟩ := h.files_eq tree
    exact ⟨sources, markup, fun perm => h.select_eq (inaccessible_eq_of_perm h.base_eq perm)⟩

/-- The include goes into a directory with a long name fifteen times and out again, so that its path
is just short enough and that of the directory below is too long. -/
theorem inaccessible_counted_twice :
    let name := List.replicate 63 '𝄞'
    let item := (List.replicate 15 (name ++ "/../".toList)).flatten ++ name
    let tree := FileTree.empty.write ⟨name ++ "/gui/A.java".toList⟩ (.text [])
    let once : Selection := ⟨.here, [item], [], ["java".toList], ["fxml".toList]⟩
    let twice : Selection := ⟨.here, [item, item], [], ["java".toList], ["fxml".toList]⟩
    twice.Rearranges once ∧ once.select tree = ⟨[], [], 1⟩ ∧ twice.select tree = ⟨[], [], 2⟩ := by
  intro name item tree once twice
  exact ⟨rearranges_includingTwice once, by decide +kernel, by decide +kernel⟩

end Selection

end LocaleKeys
