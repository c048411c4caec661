import LocaleKeys.CommandLine.Run
import LocaleKeys.Proofs.Config.Json
import LocaleKeys.Proofs.Config.Search
import LocaleKeys.Proofs.Files.Growth
import LocaleKeys.Proofs.Files.Selection
import LocaleKeys.Proofs.Project

/-!
# Making a configuration file

The file that `init` makes holds the standard settings, which hold without it as well, and it is
found where a check starts to look for it, so the settings and the directory that they are relative
to are the same either way (`Config.load_here`, `Config.load_configured`). No path that a check
follows leads by the new file. So a check comes to the same before and after, and logs the same on
its way (`init_neutral`).
-/

namespace LocaleKeys

open FileTree (extended)

namespace Config

variable (tree : FileTree)

/-! ## The search in the working directory -/

theorem leadsTo_here : LeadsTo tree .here tree.working :=
  ⟨rfl, by decide, by decide, rfl⟩

theorem leadsTo_empty : LeadsTo tree ⟨[]⟩ tree.working :=
  ⟨rfl, by decide, by decide, rfl⟩

theorem contains_fileName_iff :
    tree.contains (.ofText fileName) = true ↔ HasEntry tree tree.working fileName := by
  rw [← (leadsTo_empty tree).contains_join_iff (.inl rfl), Path.join_empty]

/-- The search from the working directory looks there only. -/
theorem find?_here :
    find? tree .here
      = if HasEntry tree tree.working fileName then some (Path.here.join (.ofText fileName))
        else none := by
  have ancestors : ancestors .here = [.here, ⟨[]⟩] := by decide
  have here := (leadsTo_here tree).contains_join_iff (.inl rfl)
  have empty := (leadsTo_empty tree).contains_join_iff (.inl rfl)
  rw [find?, ancestors]
  by_cases configured : HasEntry tree tree.working fileName
  · simp only [searchIn, if_pos (here.mpr configured), if_pos configured]
  · simp only [searchIn, if_neg (mt here.mp configured), if_neg (mt empty.mp configured),
      if_neg configured]
    repeat' split
    all_goals rfl

/-- The tree with a configuration file of the given text in the working directory. -/
def configured (text : List Char) : FileTree :=
  tree.extended (tree.working ++ [fileName.toList]) (.file (.text text))

variable {tree} {text : List Char}

theorem nodeAt?_of_not_hasEntry (bare : ¬ HasEntry tree tree.working fileName) :
    tree.nodeAt? (tree.working ++ [fileName.toList]) = none := by
  rwa [HasEntry, Bool.not_eq_true, Option.isSome_eq_false_iff, Option.isNone_iff_eq_none] at bare

/-- To write the file is to add it. -/
theorem write_fileName (bare : ¬ HasEntry tree tree.working fileName) :
    tree.write (.ofText fileName) (.text text) = configured tree text := by
  have components : (Path.ofText fileName).components = [.name fileName.toList] := by decide
  have place : tree.placeOf (.ofText fileName) = tree.working ++ [fileName.toList] := by
    rw [FileTree.placeOf, components]
    rfl
  rw [FileTree.write, place, List.dropLast_concat, FileTree.addDirectories_working,
    FileTree.writeAt, nodeAt?_of_not_hasEntry bare]
  rfl

theorem nodeAt?_configured (bare : ¬ HasEntry tree tree.working fileName) :
    (configured tree text).nodeAt? (tree.working ++ [fileName.toList])
      = some (.file (.text text)) := by
  have absent := nodeAt?_of_not_hasEntry bare
  have nonempty : ¬ (tree.working ++ [fileName.toList]).isEmpty = true := by simp
  rw [FileTree.nodeAt?, if_neg nonempty] at absent ⊢
  rw [configured, FileTree.entries_extended, List.lookup_append, absent, List.lookup_cons_self]
  rfl

/-- Without a configuration the standard settings hold, where the check starts. -/
theorem load_here (bare : ¬ HasEntry tree tree.working fileName) :
    load tree .here = .ok ⟨standard, none⟩ := by
  rw [load, find?_here, if_neg bare]

/-- A new file of usable settings is found and read, and its settings hold where the check
starts. -/
theorem load_configured (bare : ¬ HasEntry tree tree.working fileName) {config : Config}
    (settings : parse? text = some config) (usable : config.fault? = none) :
    load (configured tree text) .here = .ok ⟨config, some .here⟩ := by
  have node : (configured tree text).nodeAt? (tree.working ++ [fileName.toList])
      = some (.file (.text text)) :=
    nodeAt?_configured bare
  have present : HasEntry (configured tree text) tree.working fileName := by
    rw [HasEntry, node]
    rfl
  have found := (leadsTo_here (configured tree text)).find_join (.inl rfl)
  rw [show (configured tree text).working = tree.working from rfl, node] at found
  have read : (configured tree text).read (Path.here.join (.ofText fileName)) = .ok text := by
    rw [FileTree.read, found]
  have parent : (Path.here.join (.ofText fileName)).parent? = some .here := by decide
  have searched := (find?_here (configured tree text)).trans (if_pos present)
  simp only [load, searched, loadFile, read, settings, usable, parent]

end Config

/-! ## What a check looks at -/

open Config (configured)

variable {tree : FileTree} {text : List Char}

/-- The path leads down, and not by the configuration file of the working directory. -/
structure Aside (path : Path) : Prop where
  down : path.LeadsDown
  apart : ¬ [Config.fileName.toList] <+: Path.solid path.segments

theorem Aside.apart_placeOf {path : Path} (aside : Aside path) :
    ¬ tree.working ++ [Config.fileName.toList] <+: tree.placeOf path := by
  rw [FileTree.placeOf_of_leadsDown _ aside.down, List.prefix_append_right_inj]
  exact aside.apart

theorem Aside.read_configured {path : Path} (aside : Aside path) :
    (configured tree text).read path = tree.read path :=
  FileTree.read_extended aside.down aside.apart_placeOf

/-- The source root of a project with the standard settings. -/
def standardRoot : Path :=
  Project.resolve .here Config.standard.sourceRoot

theorem solid_standardRoot :
    Path.solid standardRoot.segments = ["src".toList, "main".toList] := by
  decide

theorem aside_standardRoot : Aside standardRoot :=
  ⟨⟨by decide, by decide⟩, by decide⟩

theorem aside_standardBundle (bundle : Bundle) :
    Aside (Project.resolve .here (Config.standard.bundlePath bundle)) := by
  cases bundle
  · exact ⟨⟨by decide, by decide⟩, by decide⟩
  · exact ⟨⟨by decide, by decide⟩, by decide⟩

/-- The file is not below the source root. -/
theorem apart_standardRoot :
    ¬ tree.placeOf standardRoot <+: tree.working ++ [Config.fileName.toList] := by
  rw [FileTree.placeOf_of_leadsDown _ aside_standardRoot.down, List.prefix_append_right_inj]
  decide

theorem walk?_configured : (configured tree text).walk? standardRoot = tree.walk? standardRoot :=
  FileTree.walk?_extended aside_standardRoot.down aside_standardRoot.apart_placeOf
    apart_standardRoot

theorem accessErrors_configured :
    (configured tree text).accessErrors standardRoot = tree.accessErrors standardRoot :=
  FileTree.accessErrors_extended aside_standardRoot.down aside_standardRoot.apart_placeOf
    apart_standardRoot

/-- What to look for in a project with the standard settings. -/
abbrev standardSelection : Selection :=
  Project.selection Config.standard standardRoot

theorem startingPoints_standardSelection (tree : FileTree) :
    standardSelection.startingPoints tree = [standardRoot] :=
  rfl

theorem select_configured :
    standardSelection.select (configured tree text) = standardSelection.select tree := by
  have candidates : standardSelection.candidates (configured tree text)
      = standardSelection.candidates tree := by
    simp only [Selection.candidates, startingPoints_standardSelection, List.flatMap_singleton,
      walk?_configured]
  have inaccessible : (configured tree text).inaccessible standardRoot
      = tree.inaccessible standardRoot := by
    rw [FileTree.inaccessible, FileTree.inaccessible, accessErrors_configured]
  simp only [Selection.select, candidates, startingPoints_standardSelection, List.map_singleton,
    inaccessible]

/-- The standard settings name no includes and no ignores, so what is logged of the selection is
what the walk from the source root cannot access, and how many files it finds. -/
theorem selectionLog_configured :
    standardSelection.log (configured tree text) = standardSelection.log tree := by
  have includes : standardSelection.includes = [] := rfl
  simp only [Selection.log, select_configured, startingPoints_standardSelection, includes,
    List.filterMap_nil, List.flatMap_singleton, accessErrors_configured]

/-- The selected files lie below the source root. -/
theorem aside_of_mem_files (named : tree.WellNamed) {file : Path}
    (selected : file ∈ standardSelection.files tree) : Aside file := by
  obtain ⟨start, among, content, walked, -⟩ :=
    Selection.exists_start_of_mem_candidates (Selection.mem_files_iff.mp selected).1
  obtain rfl : start = standardRoot := List.mem_singleton.mp among
  obtain ⟨way, nonempty, rfl, names, -⟩ := FileTree.exists_way_of_file_mem_walk? named walked
  refine ⟨aside_standardRoot.down.descend nonempty names, ?_⟩
  rw [aside_standardRoot.down.solid_descend nonempty names, solid_standardRoot]
  intro before
  exact absurd (List.cons_prefix_cons.mp before).1 (by decide)

/-! ## The check -/

/-- The files that a check reads are read as they were. -/
theorem outcomes_configured {bundle : Bundle} {evaluator : Markup.Evaluator}
    {sources markup : List Path} (h : ∀ file ∈ sources ++ markup, Aside file) :
    Collection.outcomes (configured tree text) bundle evaluator sources markup
      = Collection.outcomes tree bundle evaluator sources markup := by
  have source : sources.map (FileOutcome.ofSource (configured tree text) bundle)
      = sources.map (FileOutcome.ofSource tree bundle) := by
    apply List.map_congr_left
    intro file inside
    have aside := h file (List.mem_append_left _ inside)
    rw [FileOutcome.ofSource, FileOutcome.ofSource, aside.read_configured]
  have marked : markup.map (FileOutcome.ofMarkup (configured tree text) bundle evaluator)
      = markup.map (FileOutcome.ofMarkup tree bundle evaluator) := by
    apply List.map_congr_left
    intro file inside
    have aside := h file (List.mem_append_right _ inside)
    rw [FileOutcome.ofMarkup, FileOutcome.ofMarkup, aside.read_configured]
  rw [Collection.outcomes, Collection.outcomes, source, marked]

/-- The project that a tree without a configuration file holds. -/
def standardProject (tree : FileTree) : Project :=
  ⟨.standard, .here, standardSelection.select tree⟩

theorem aside_of_mem_standardProject (named : tree.WellNamed) :
    ∀ file ∈ (standardProject tree).files.sources ++ (standardProject tree).files.markup,
      Aside file :=
  fun _ selected => aside_of_mem_files named selected

theorem bundleReport_configured (named : tree.WellNamed) (bundle : Bundle) :
    BundleReport.of (standardProject tree) (configured tree text) bundle
      = BundleReport.of (standardProject tree) tree bundle := by
  have defined : (standardProject tree).definedKeys (configured tree text) bundle
      = (standardProject tree).definedKeys tree bundle := by
    have read : (configured tree text).read
        (Project.resolve .here (Config.standard.bundlePath bundle)) = tree.read _ :=
      (aside_standardBundle bundle).read_configured
    simp only [Project.definedKeys, Project.bundlePath, standardProject, read]
  have collected : (standardProject tree).collection (configured tree text) bundle
      = (standardProject tree).collection tree bundle := by
    rw [Project.collection, Project.collection, Collection.ofFiles, Collection.ofFiles,
      outcomes_configured (aside_of_mem_standardProject named)]
  rw [BundleReport.of, BundleReport.of, defined, collected]

/-- What is logged of a bundle comes from the files that are read, and from its report. -/
theorem bundleLog_configured (named : tree.WellNamed) (bundle : Bundle) :
    BundleReport.logOf (standardProject tree) (configured tree text) bundle
      = BundleReport.logOf (standardProject tree) tree bundle := by
  rw [BundleReport.logOf, BundleReport.logOf, bundleReport_configured named, Collection.log,
    Collection.log, Collection.ofFiles, Collection.ofFiles,
    outcomes_configured (aside_of_mem_standardProject named)]

theorem bundleLogs_configured (named : tree.WellNamed) (bundles : List Bundle) :
    BundleReport.logOfAll (standardProject tree) (configured tree text) bundles
      = BundleReport.logOfAll (standardProject tree) tree bundles := by
  induction bundles with
  | nil => rfl
  | cons bundle bundles ih =>
    rw [BundleReport.logOfAll, BundleReport.logOfAll, bundleLog_configured named,
      bundleReport_configured named, ih]

/-- The options of a check of the working directory that replace no setting. -/
structure Plain (options : CheckOptions) : Prop where
  root : options.root = .here
  sourceRoot : options.sourceRoot? = none
  langBundle : options.langBundle? = none
  menuBundle : options.menuBundle? = none

theorem opened_of_plain {options : CheckOptions} (plain : Plain options)
    {directory? : Option Path} (same : directory?.getD .here = .here)
    (settings : Config.load tree .here = .ok ⟨.standard, directory?⟩) :
    Project.opened tree options =
      if tree.isDirectory standardRoot then .ok (standardProject tree)
      else .error (.missingSourceRoot standardRoot) := by
  obtain ⟨root, _, _, _⟩ := options
  obtain ⟨rfl, rfl, rfl, rfl⟩ := plain
  rw [Project.opened_of_load settings]
  simp only [Project.sourceRoot, Project.directory, same]
  rfl

/-- A check that replaces no setting opens the same project with a file that gives the standard
settings. -/
theorem opened_configured (bare : ¬ Config.HasEntry tree tree.working Config.fileName)
    (settings : Config.parse? text = some .standard) {options : CheckOptions}
    (plain : Plain options) :
    Project.opened (configured tree text) options = Project.opened tree options ∧
      ∀ project, Project.opened tree options = .ok project → project = standardProject tree := by
  have before := opened_of_plain plain rfl (Config.load_here bare)
  have after := opened_of_plain plain rfl
    (Config.load_configured bare settings Config.fault?_standard)
  have directory :
      (configured tree text).isDirectory standardRoot = tree.isDirectory standardRoot :=
    FileTree.isDirectory_extended aside_standardRoot.down aside_standardRoot.apart_placeOf
  have same : standardProject (configured tree text) = standardProject tree := by
    rw [standardProject, standardProject, select_configured]
  rw [directory, same, ← before] at after
  refine ⟨after, fun project opened => ?_⟩
  rw [before] at opened
  split at opened
  · exact (Except.ok.inj opened).symm
  · cases opened

section

variable (named : tree.WellNamed) (bare : ¬ Config.HasEntry tree tree.working Config.fileName)
  (settings : Config.parse? text = some .standard) {options : CheckOptions}
  (plain : Plain options) (bundles : List Bundle)

include named bare settings plain

/-- A check that replaces no setting comes to the same with a file that gives the standard
settings. -/
theorem checkReport_configured :
    CheckReport.of (configured tree text) options bundles
      = CheckReport.of tree options bundles := by
  obtain ⟨same, standard⟩ := opened_configured bare settings plain
  cases opened : Project.opened tree options with
  | error e =>
    rw [opened] at same
    rw [CheckReport.of_opened_eq_error opened, CheckReport.of_opened_eq_error same]
  | ok project =>
    rw [opened] at same
    obtain rfl := standard project opened
    have reports : BundleReport.of (standardProject tree) (configured tree text)
        = BundleReport.of (standardProject tree) tree :=
      funext (bundleReport_configured named)
    rw [CheckReport.of_opened opened, CheckReport.of_opened same, reports]

/-- It logs the same as well. -/
theorem checkLog_configured :
    CheckReport.log (configured tree text) options bundles
      = CheckReport.log tree options bundles := by
  obtain ⟨same, standard⟩ := opened_configured bare settings plain
  rw [CheckReport.log, CheckReport.log, same]
  cases opened : Project.opened tree options with
  | error e => rfl
  | ok project =>
    obtain rfl := standard project opened
    have files :
        (standardProject tree).log (configured tree text) = (standardProject tree).log tree :=
      congrArg (· ++ _) selectionLog_configured
    simp only [files, bundleLogs_configured named]

end

/-- `init` makes no difference to a check: without a configuration file in the working directory, a
check of that directory that replaces no setting comes to the same, in status and in all that it
writes and logs, whether the standard file was made before or not, in every tree whose entries have
names that entries can have. With such a file, `init` fails and leaves the tree as it is. -/
theorem init_neutral (colors : Bool) (tree : FileTree) :
    (tree.contains (.ofText Config.fileName) = false →
      (CommandLine.run colors tree .init).2.status.code = 0 ∧
      ∀ (colors' : Bool) (arguments : CommandLine.CheckArguments), tree.WellNamed →
        arguments.root = "." → arguments.sourceRoot? = none → arguments.langBundle? = none →
        arguments.menuBundle? = none →
        (CommandLine.run colors' (CommandLine.run colors tree .init).1 (.check arguments)).2
          = (CommandLine.run colors' tree (.check arguments)).2) ∧
    (tree.contains (.ofText Config.fileName) = true →
      (CommandLine.run colors tree .init).2.status.code = 2 ∧
      (CommandLine.run colors tree .init).1 = tree) := by
  constructor
  · intro absent
    have bare : ¬ Config.HasEntry tree tree.working Config.fileName := by
      rw [← Config.contains_fileName_iff, absent]
      exact Bool.false_ne_true
    have made : CommandLine.run colors tree .init
        = (configured tree Config.standard.print, .ofInit colors) := by
      rw [CommandLine.run, CommandLine.init, if_neg (by simp [absent]), Config.write_fileName bare]
    rw [made]
    refine ⟨rfl, fun colors' arguments named root sourceRoot langBundle menuBundle => ?_⟩
    have plain : Plain arguments.options := by
      refine ⟨?_, sourceRoot, langBundle, menuBundle⟩
      rw [CommandLine.CheckArguments.options, root]
      rfl
    have settings := Config.parse?_print .standard
    have same := checkReport_configured named bare settings plain arguments.bundles
    have logged := checkLog_configured named bare settings plain arguments.bundles
    simp only [CommandLine.run, CommandLine.check, CommandLine.checkLog, same, logged]
  · intro present
    have kept : CommandLine.run colors tree .init
        = (tree, .failure s!"{Config.fileName} already exists") := by
      rw [CommandLine.run, CommandLine.init, if_pos present]
    rw [kept]
    exact ⟨rfl, rfl⟩

/-- A project in which a key is missing. -/
def missingSave : FileTree :=
  (FileTree.empty.write ⟨"src/main/App.java".toList⟩
    (.text "Localization.lang(\"Save\")".toList)).write ⟨"src/main/resources/l10n/JabRef_en.properties".toList⟩ (.text [])

theorem init_neutral_missingSave :
    let check := CommandLine.Command.check
      { CommandLine.CheckArguments.none with bundles := [.lang], verbose := true }
    let made := (CommandLine.run true missingSave .init).1
    (CommandLine.run false missingSave check).2.status = .issuesFound ∧
      (CommandLine.run false missingSave check).2.log.map LogEvent.message =
        ["file tree scanned", "scanning file tree", "entry set built", "bundle checked"] ∧
      (CommandLine.run false made check).2 = (CommandLine.run false missingSave check).2 ∧
      (CommandLine.run true made .init).2.status.code = 2 := by
  intro check made
  have absent : missingSave.contains (.ofText Config.fileName) = false := by decide +kernel
  have present : made.contains (.ofText Config.fileName) = true := by decide +kernel
  have named : missingSave.WellNamed := (FileTree.wellNamed_empty.write _ _).write _ _
  have status : (CommandLine.run false missingSave check).2.status = .issuesFound := by
    decide +kernel
  have logged : (CommandLine.run false missingSave check).2.log.map LogEvent.message =
      ["file tree scanned", "scanning file tree", "entry set built", "bundle checked"] := by
    decide +kernel
  obtain ⟨-, same⟩ := (init_neutral true missingSave).1 absent
  exact ⟨status, logged, same false _ named rfl rfl rfl rfl, ((init_neutral true made).2 present).1⟩

end LocaleKeys
