import LocaleKeys.Project
import LocaleKeys.Proofs.Attempts
import LocaleKeys.Proofs.Sorting
import LocaleKeys.Proofs.UsedKeys

/-!
# When a check comes to no report

A check fails exactly if it is `Unusable`: the settings, the source root or the base resource file
of a selected bundle are at fault (`CheckReport.exists_error_iff`). Otherwise there is a report on
each selected bundle (`CheckReport.exists_of_eq_ok`). The list of bundles that is asked for is put in
order without repetitions, so only its members matter (`CheckReport.requested_congr`).
-/

namespace LocaleKeys

/-! ## What keeps a check from a report -/

/-- There is a configuration file, but it cannot be read, holds no settings or unusable ones. -/
def Config.Broken (tree : FileTree) (start : Path) : Prop :=
  ∃ file, find? tree start = some file ∧
    ((∃ e, tree.read file = .error e) ∨
      ∃ text, tree.read file = .ok text ∧
        (parse? text = none ∨
          ∃ config fault, parse? text = some config ∧ config.fault? = some fault))

/-- A base resource file cannot be read or is malformed. -/
def BaseBroken (tree : FileTree) (path : Path) : Prop :=
  (∃ e, tree.read path = .error e) ∨
    ∃ text e, tree.read path = .ok text ∧ Properties.parse text = .error e

namespace Project

/-- The directory that the paths in the settings are relative to. -/
def directory (options : CheckOptions) (loaded : Config.Loaded) : Path :=
  loaded.directory?.getD options.root

/-- The source root of a project with the given settings. -/
def sourceRoot (options : CheckOptions) (loaded : Config.Loaded) : Path :=
  resolve (directory options loaded) (override options loaded.config).sourceRoot

/-- The path of the base resource file of a bundle of a project with the given settings. -/
def basePath (options : CheckOptions) (loaded : Config.Loaded) (bundle : Bundle) : Path :=
  resolve (directory options loaded) ((override options loaded.config).bundlePath bundle)

end Project

/-- A check of bundles comes to no report. -/
inductive Unusable (tree : FileTree) (options : CheckOptions) (bundles : List Bundle) : Prop where
  | configuration (broken : Config.Broken tree options.root)
  | sourceRoot {loaded : Config.Loaded} (settings : Config.load tree options.root = .ok loaded)
      (missing : tree.isDirectory (Project.sourceRoot options loaded) = false)
  | base {loaded : Config.Loaded} (settings : Config.load tree options.root = .ok loaded)
      {bundle : Bundle} (selected : bundles = [] ∨ bundle ∈ bundles)
      (broken : BaseBroken tree (Project.basePath options loaded bundle))

theorem Config.exists_load_eq_error_iff {tree : FileTree} {start : Path} :
    (∃ e, load tree start = .error e) ↔ Broken tree start := by
  rw [load, Broken]
  cases find? tree start with
  | none => simp
  | some file =>
    simp only [loadFile, Option.some.injEq, exists_eq_left']
    cases tree.read file with
    | error e => simp
    | ok text =>
      cases parsed : parse? text with
      | none => simp [parsed]
      | some config =>
        cases fault : config.fault? with
        | none => simp [parsed, fault]
        | some fault' => simp [parsed, fault]

namespace Project

variable {tree : FileTree} {options : CheckOptions}

theorem opened_of_load {loaded : Config.Loaded}
    (settings : Config.load tree options.root = .ok loaded) :
    opened tree options =
      if tree.isDirectory (sourceRoot options loaded) then
        .ok ⟨override options loaded.config, directory options loaded,
          (selection (override options loaded.config) (sourceRoot options loaded)).select tree⟩
      else .error (.missingSourceRoot (sourceRoot options loaded)) := by
  rw [opened, settings]
  rfl

/-- A project is opened if its settings are in order and its source root is a directory. -/
theorem exists_opened_eq_error_iff :
    (∃ e, opened tree options = .error e) ↔
      Config.Broken tree options.root ∨
        ∃ loaded, Config.load tree options.root = .ok loaded ∧
          tree.isDirectory (sourceRoot options loaded) = false := by
  rw [← Config.exists_load_eq_error_iff]
  cases settings : Config.load tree options.root with
  | error e => simp [opened, settings]
  | ok loaded =>
    rw [opened_of_load settings]
    cases root : tree.isDirectory (sourceRoot options loaded) <;> simp [root]

theorem exists_load_of_opened {project : Project} (h : opened tree options = .ok project) :
    ∃ loaded, Config.load tree options.root = .ok loaded ∧
      project = ⟨override options loaded.config, directory options loaded,
        (selection (override options loaded.config) (sourceRoot options loaded)).select tree⟩ := by
  cases settings : Config.load tree options.root with
  | error e =>
    rw [opened, settings] at h
    cases h
  | ok loaded =>
    rw [opened_of_load settings] at h
    split at h
    · cases h
      exact ⟨loaded, rfl, rfl⟩
    · cases h

/-- The keys of a base resource file are known unless it is broken. -/
theorem definedKeys_cases (project : Project) (tree : FileTree) (bundle : Bundle) :
    (∃ text entries, tree.read (project.bundlePath bundle) = .ok text ∧
      Properties.parse text = .ok entries ∧
      project.definedKeys tree bundle =
        .ok (.ofEntries (project.bundlePath bundle).toText entries)) ∨
    (∃ e, project.definedKeys tree bundle = .error e) ∧
      BaseBroken tree (project.bundlePath bundle) := by
  rw [definedKeys]
  cases read : tree.read (project.bundlePath bundle) with
  | error e => exact .inr ⟨⟨_, rfl⟩, .inl ⟨e, read⟩⟩
  | ok text =>
    cases parsed : Properties.parse text with
    | error e =>
      refine .inr ⟨⟨.malformedBundle (project.bundlePath bundle) e, ?_⟩,
        .inr ⟨text, e, read, parsed⟩⟩
      simp only [DefinedKeys.parse, parsed]
      rfl
    | ok entries =>
      refine .inl ⟨text, entries, rfl, parsed, ?_⟩
      simp only [DefinedKeys.parse, parsed]
      rfl

end Project

/-! ## Reports on bundles -/

/-- A report on a bundle compares the definitions of its base resource file with the keys collected
for it. -/
def BundleReport.IsOn (report : BundleReport) (project : Project) (tree : FileTree)
    (bundle : Bundle) : Prop :=
  ∃ text entries, tree.read (project.bundlePath bundle) = .ok text ∧
    Properties.parse text = .ok entries ∧
    report = ⟨bundle, .ofEntries (project.bundlePath bundle).toText entries,
      project.collection tree bundle⟩

theorem BundleReport.of_cases (project : Project) (tree : FileTree) (bundle : Bundle) :
    (∃ report, BundleReport.of project tree bundle = .ok report ∧
      report.IsOn project tree bundle) ∨
    (∃ e, BundleReport.of project tree bundle = .error e) ∧
      BaseBroken tree (project.bundlePath bundle) := by
  rw [BundleReport.of]
  rcases project.definedKeys_cases tree bundle with
    ⟨text, entries, read, parsed, known⟩ | ⟨⟨e, unknown⟩, broken⟩
  · rw [known]
    exact .inl ⟨_, rfl, text, entries, read, parsed, rfl⟩
  · rw [unknown]
    exact .inr ⟨⟨e, rfl⟩, broken⟩

theorem BaseBroken.not_read {tree : FileTree} {path : Path} (h : BaseBroken tree path)
    {text : List Char} {entries : List Properties.Entry} (read : tree.read path = .ok text) :
    Properties.parse text ≠ .ok entries := by
  rintro parsed
  rcases h with ⟨e, unread⟩ | ⟨text', e, read', malformed⟩
  · rw [read] at unread
    cases unread
  · rw [read] at read'
    cases read'
    rw [parsed] at malformed
    cases malformed

/-- The check of a bundle comes to the report on it. -/
theorem BundleReport.of_eq_ok_iff {project : Project} {tree : FileTree} {bundle : Bundle}
    {report : BundleReport} :
    BundleReport.of project tree bundle = .ok report ↔ report.IsOn project tree bundle := by
  rcases BundleReport.of_cases project tree bundle with
    ⟨report', known, text, entries, read, parsed, rfl⟩ | ⟨⟨e, failed⟩, broken⟩
  · rw [known]
    constructor
    · intro same
      cases same
      exact ⟨text, entries, read, parsed, rfl⟩
    · rintro ⟨text', entries', read', parsed', rfl⟩
      rw [read] at read'
      cases read'
      rw [parsed] at parsed'
      cases parsed'
      rfl
  · rw [failed]
    refine iff_of_false nofun ?_
    rintro ⟨text, entries, read, parsed, -⟩
    exact broken.not_read read parsed

theorem BundleReport.exists_of_eq_error_iff {project : Project} {tree : FileTree}
    {bundle : Bundle} :
    (∃ e, BundleReport.of project tree bundle = .error e) ↔
      BaseBroken tree (project.bundlePath bundle) := by
  rcases BundleReport.of_cases project tree bundle with
    ⟨report, known, text, entries, read, parsed, -⟩ | ⟨failed, broken⟩
  · refine iff_of_false ?_ fun broken => broken.not_read read parsed
    rintro ⟨e, failed⟩
    rw [known] at failed
    cases failed
  · exact iff_of_true failed broken

/-! ## The selected bundles -/

namespace Bundle

theorem mem_all (bundle : Bundle) : bundle ∈ all := by
  cases bundle <;> decide

theorem increasing_all : all.Pairwise (compare · · = .lt) := by
  decide

theorem mem_sorted {bundles : List Bundle} {bundle : Bundle} :
    bundle ∈ sorted bundles ↔ bundle ∈ bundles :=
  mem_eraseReps_mergeSort

theorem increasing_sorted (bundles : List Bundle) :
    (sorted bundles).Pairwise (compare · · = .lt) :=
  increasing_eraseReps (sorted_mergeSort bundles)

/-- Only its members decide what a list of bundles is in order. -/
theorem sorted_congr {bundles bundles' : List Bundle}
    (same : ∀ bundle, bundle ∈ bundles ↔ bundle ∈ bundles') : sorted bundles = sorted bundles' := by
  refine SortedMap.keys_eq_of_mem_iff (increasing_sorted bundles) (increasing_sorted bundles')
    fun bundle => ?_
  rw [mem_sorted, mem_sorted, same]

theorem sorted_of_increasing {bundles : List Bundle} (h : bundles.Pairwise (compare · · = .lt)) :
    sorted bundles = bundles :=
  SortedMap.keys_eq_of_mem_iff (increasing_sorted bundles) h fun _ => mem_sorted

end Bundle

namespace CheckReport

theorem requested_of_ne_nil {bundles : List Bundle} (some : bundles ≠ []) :
    requested bundles = Bundle.sorted bundles := by
  rw [requested, if_neg (by simpa using some)]

theorem mem_requested_iff {bundles : List Bundle} {bundle : Bundle} :
    bundle ∈ requested bundles ↔ bundles = [] ∨ bundle ∈ bundles := by
  by_cases none : bundles = []
  · exact iff_of_true (none ▸ bundle.mem_all) (.inl none)
  · rw [requested_of_ne_nil none, Bundle.mem_sorted, or_iff_right none]

/-- The selected bundles are in order, each once. -/
theorem increasing_requested (bundles : List Bundle) :
    (requested bundles).Pairwise (compare · · = .lt) := by
  rw [requested]
  split
  · exact Bundle.increasing_all
  · exact Bundle.increasing_sorted bundles

theorem nodup_requested (bundles : List Bundle) : (requested bundles).Nodup :=
  SortedMap.nodup_of_increasing (increasing_requested bundles)

/-- Bundles that are in order, each once, are selected as they are listed. -/
theorem requested_of_increasing {bundles : List Bundle} (some : bundles ≠ [])
    (h : bundles.Pairwise (compare · · = .lt)) : requested bundles = bundles := by
  rw [requested_of_ne_nil some, Bundle.sorted_of_increasing h]

/-- No bundles are all bundles. -/
theorem requested_nil : requested [] = requested [.lang, .menu] :=
  (requested_of_increasing (List.cons_ne_nil _ _) Bundle.increasing_all).symm

/-- Only the set of the bundles matters. -/
theorem requested_congr {bundles bundles' : List Bundle} (some : bundles ≠ [])
    (some' : bundles' ≠ []) (same : ∀ bundle, bundle ∈ bundles ↔ bundle ∈ bundles') :
    requested bundles = requested bundles' := by
  rw [requested_of_ne_nil some, requested_of_ne_nil some', Bundle.sorted_congr same]

variable {tree : FileTree} {options : CheckOptions} {bundles : List Bundle}

theorem of_opened {project : Project} (h : Project.opened tree options = .ok project) :
    CheckReport.of tree options bundles =
      ((requested bundles).mapM (BundleReport.of project tree)).map (ofBundles project) := by
  rw [CheckReport.of, h]
  change ((requested bundles).mapM (BundleReport.of project tree)).bind _ = _
  cases (requested bundles).mapM (BundleReport.of project tree) <;> rfl

theorem of_opened_eq_error {error : CheckError} (h : Project.opened tree options = .error error) :
    CheckReport.of tree options bundles = .error error := by
  rw [CheckReport.of, h]
  rfl

/-- A check that comes to a report has reported on each selected bundle. -/
theorem exists_of_eq_ok {report : CheckReport}
    (h : CheckReport.of tree options bundles = .ok report) :
    ∃ project reports, Project.opened tree options = .ok project ∧
      List.Forall₂ (fun bundle report => BundleReport.IsOn report project tree bundle)
        (requested bundles) reports ∧
      report = ofBundles project reports := by
  cases opened : Project.opened tree options with
  | error e =>
    rw [CheckReport.of, opened] at h
    cases h
  | ok project =>
    rw [of_opened opened] at h
    cases found : (requested bundles).mapM (BundleReport.of project tree) with
    | error e =>
      rw [found] at h
      cases h
    | ok reports =>
      rw [found] at h
      cases h
      refine ⟨project, reports, rfl, ?_, rfl⟩
      exact (mapM_eq_ok_iff.mp found).imp fun _ _ => BundleReport.of_eq_ok_iff.mp

/-- Reports on the selected bundles make up the report of the check. -/
theorem of_reports {project : Project} (opened : Project.opened tree options = .ok project)
    {reports : List BundleReport}
    (on : List.Forall₂ (fun bundle report => BundleReport.IsOn report project tree bundle)
      (requested bundles) reports) :
    CheckReport.of tree options bundles = .ok (ofBundles project reports) := by
  have found : (requested bundles).mapM (BundleReport.of project tree) = .ok reports :=
    mapM_eq_ok_iff.mpr (on.imp fun _ _ => BundleReport.of_eq_ok_iff.mpr)
  rw [of_opened opened, found]
  rfl

/-- The base resource files that a check reads are at the paths that the settings give. -/
theorem exists_error_of_opened_iff {project : Project}
    (h : Project.opened tree options = .ok project) :
    (∃ e, CheckReport.of tree options bundles = .error e) ↔
      ∃ bundle, (bundles = [] ∨ bundle ∈ bundles) ∧
        BaseBroken tree (project.bundlePath bundle) := by
  have failed : (∃ e, CheckReport.of tree options bundles = .error e) ↔
      ∃ e, (requested bundles).mapM (BundleReport.of project tree) = .error e := by
    rw [of_opened h]
    cases (requested bundles).mapM (BundleReport.of project tree) <;> simp [Except.map]
  rw [failed, exists_mapM_eq_error_iff]
  simp only [mem_requested_iff, BundleReport.exists_of_eq_error_iff]

/-- A check fails exactly if the settings, the source root or a base resource file are at fault. -/
theorem exists_error_iff :
    (∃ e, CheckReport.of tree options bundles = .error e) ↔ Unusable tree options bundles := by
  cases opened : Project.opened tree options with
  | error e =>
    refine iff_of_true ⟨e, by rw [CheckReport.of, opened]; rfl⟩ ?_
    rcases Project.exists_opened_eq_error_iff.mp ⟨e, opened⟩ with
      broken | ⟨loaded, settings, missing⟩
    · exact .configuration broken
    · exact .sourceRoot settings missing
  | ok project =>
    obtain ⟨loaded, settings, rfl⟩ := Project.exists_load_of_opened opened
    have sound : ¬ ∃ e, Project.opened tree options = .error e := by
      rintro ⟨e, failed⟩
      rw [opened] at failed
      cases failed
    rw [Project.exists_opened_eq_error_iff] at sound
    rw [exists_error_of_opened_iff opened]
    constructor
    · rintro ⟨bundle, selected, broken⟩
      exact .base settings selected broken
    · rintro (broken | ⟨settings', missing⟩ | ⟨settings', selected, broken⟩)
      · exact absurd (.inl broken) sound
      · exact absurd (.inr ⟨_, settings', missing⟩) sound
      · rw [settings] at settings'
        cases settings'
        exact ⟨_, selected, broken⟩

end CheckReport

end LocaleKeys
