import LocaleKeys.Collection
import LocaleKeys.Config.Search
import LocaleKeys.Files.Selection

/-!
# Checking a project

A project is opened once: its settings are found and its files are selected. Then every bundle is
checked on its own, the keys in use against the keys that the base resource file defines. A check
comes to a report unless the settings cannot be loaded, the source root is no directory, or a base
resource file cannot be read.
-/

namespace LocaleKeys

/-- Where to look for a project, and settings that replace those of its configuration. -/
structure CheckOptions where
  root : Path
  sourceRoot? : Option String
  langBundle? : Option String
  menuBundle? : Option String
deriving DecidableEq

/-- Why a check comes to no report. -/
inductive CheckError where
  | configuration (error : Config.LoadError)
  | missingSourceRoot (path : Path)
  | unreadableBundle (path : Path) (error : ReadError)
  | malformedBundle (path : Path) (error : Properties.MalformedEscape)
deriving DecidableEq

/-- The report of a check that failed. -/
def CheckError.message : CheckError → String
  | .configuration error => error.message
  | .missingSourceRoot path => s!"source root {path.toText} does not exist"
  | .unreadableBundle path error =>
    s!"base resource file {path.toText} could not be read: {error.message}"
  | .malformedBundle path error =>
    s!"base resource file {path.toText} is malformed: {error.message}"

/-- A project whose settings are known and whose files are selected. -/
structure Project where
  config : Config
  /-- The directory that the paths in the settings are relative to. -/
  root : Path
  files : SelectedFiles

namespace Project

/-- A path of the settings behind a directory, unless it is absolute. -/
def resolve (directory : Path) (configured : String) : Path :=
  let path := Path.ofText configured
  if path.isAbsolute then path else directory.join path.withoutHere

/-- The settings with those that the options replace. -/
def override (options : CheckOptions) (config : Config) : Config :=
  { config with
    sourceRoot := options.sourceRoot?.getD config.sourceRoot
    langBundle := options.langBundle?.getD config.langBundle
    menuBundle := options.menuBundle?.getD config.menuBundle }

/-- What to look for below the source root of a project with the given settings. -/
def selection (config : Config) (sourceRoot : Path) : Selection where
  base := sourceRoot
  includes := config.includes.map String.toList
  ignores := config.ignores.map String.toList
  sourceExtensions := config.sourceExtensions.map String.toList
  markupExtensions := config.markupExtensions.map String.toList

/-- The project that a tree holds. -/
def opened (tree : FileTree) (options : CheckOptions) : Except CheckError Project :=
  match Config.load tree options.root with
  | .error error => .error (.configuration error)
  | .ok loaded =>
    let config := override options loaded.config
    let root := loaded.directory?.getD options.root
    let sourceRoot := resolve root config.sourceRoot
    if tree.isDirectory sourceRoot then
      .ok ⟨config, root, (selection config sourceRoot).select tree⟩
    else .error (.missingSourceRoot sourceRoot)

/-- The path of the base resource file of a bundle. -/
def bundlePath (project : Project) (bundle : Bundle) : Path :=
  resolve project.root (project.config.bundlePath bundle)

/-- The keys that the base resource file of a bundle defines. -/
def definedKeys (project : Project) (tree : FileTree) (bundle : Bundle) :
    Except CheckError DefinedKeys :=
  let path := project.bundlePath bundle
  match tree.read path with
  | .error error => .error (.unreadableBundle path error)
  | .ok text =>
    match DefinedKeys.parse path.toText text with
    | .error error => .error (.malformedBundle path error)
    | .ok defined => .ok defined

/-- The keys that the files of a project use. -/
def collection (project : Project) (tree : FileTree) (bundle : Bundle) : Collection :=
  Collection.ofFiles tree bundle Markup.evaluate project.files.sources project.files.markup

/-- What is logged while a project is opened. -/
def log (project : Project) (tree : FileTree) : List LogEvent :=
  let sourceRoot := resolve project.root project.config.sourceRoot
  (selection project.config sourceRoot).log tree
    ++ [⟨.info, "scanning file tree",
      [("root", sourceRoot.toText), ("sources", toString project.files.sources.length),
        ("markup", toString project.files.markup.length)]⟩]

end Project

/-- What is known about a bundle after a check. -/
structure BundleReport where
  bundle : Bundle
  defined : DefinedKeys
  collection : Collection

namespace BundleReport

/-- The check of a bundle of a project. -/
def of (project : Project) (tree : FileTree) (bundle : Bundle) : Except CheckError BundleReport :=
  (project.definedKeys tree bundle).map fun defined =>
    ⟨bundle, defined, project.collection tree bundle⟩

/-- The issues of a bundle, rule by rule. -/
def issues (report : BundleReport) : List Issue :=
  Issue.ofBundle report.bundle report.collection.failures report.collection.used report.defined

/-- What is logged about a bundle that is known: its repeated definitions, and that its check is
complete. -/
def log (report : BundleReport) : List LogEvent :=
  let comparison := Comparison.of report.collection.used report.defined
  report.defined.log
    ++ [⟨.debug, "bundle checked",
      [("bundle", report.bundle.name), ("used", toString report.collection.used.size),
        ("defined", toString report.defined.lines.size),
        ("missing", toString comparison.missing.length),
        ("obsolete", toString comparison.obsolete.length)]⟩]

/-- What the check of a bundle logs, whether or not it comes to a report. -/
def logOf (project : Project) (tree : FileTree) (bundle : Bundle) : List LogEvent :=
  Collection.log tree bundle Markup.evaluate project.files.sources project.files.markup
    ++ match of project tree bundle with
      | .ok report => report.log
      | .error _ => []

/-- What the checks of bundles log, one after the other, up to the first one that fails. -/
def logOfAll (project : Project) (tree : FileTree) : List Bundle → List LogEvent
  | [] => []
  | bundle :: bundles =>
    logOf project tree bundle
      ++ match of project tree bundle with
        | .ok _ => logOfAll project tree bundles
        | .error _ => []

end BundleReport

/-- A file that is left out, as reports show it. -/
structure SkippedNotice where
  file : String
  reason : String
deriving DecidableEq

namespace SkippedNotice

/-- The notice of a file that is left out. -/
def ofFile (skipped : SkippedFile) : SkippedNotice :=
  ⟨skipped.file, skipped.reason.message⟩

/-- Notices are ordered by file, then by reason. -/
instance : Ord SkippedNotice :=
  ⟨fun a b => (compare a.file b.file).then (compare a.reason b.reason)⟩

/-- The first notice is not behind the second. -/
def before (a b : SkippedNotice) : Bool :=
  (compare a b).isLE

/-- Notices in increasing order, each once. -/
def sorted (notices : List SkippedNotice) : List SkippedNotice :=
  (notices.mergeSort before).eraseReps

end SkippedNotice

/-- The result of a check. -/
structure CheckReport where
  /-- The bundles that were checked, in order. -/
  bundles : List Bundle
  /-- All issues, in the order of reports. -/
  issues : List Issue
  /-- The files that were left out, in order. -/
  skipped : List SkippedNotice
  /-- The number of directories that could not be entered. -/
  inaccessible : Nat
  /-- The number of source files. -/
  sourceFiles : Nat
  /-- The number of markup files, if a bundle reads markup. -/
  markupFiles : Nat
deriving DecidableEq

namespace CheckReport

/-- The bundles that a list asks for, in order; an empty list asks for all. -/
def requested (bundles : List Bundle) : List Bundle :=
  if bundles.isEmpty then Bundle.all else Bundle.sorted bundles

/-- The report on a project from the reports on its bundles. -/
def ofBundles (project : Project) (reports : List BundleReport) : CheckReport where
  bundles := reports.map (·.bundle)
  issues := Issue.inReportOrder (reports.flatMap BundleReport.issues)
  skipped := SkippedNotice.sorted <|
    reports.flatMap fun report => report.collection.skipped.map SkippedNotice.ofFile
  inaccessible := project.files.inaccessible
  sourceFiles := project.files.sources.length
  markupFiles :=
    if reports.any (·.bundle.readsMarkup) then project.files.markup.length else 0

/-- The check of bundles of the project in a tree. -/
def of (tree : FileTree) (options : CheckOptions) (bundles : List Bundle) :
    Except CheckError CheckReport := do
  let project ← Project.opened tree options
  let reports ← (requested bundles).mapM (BundleReport.of project tree)
  return ofBundles project reports

/-- What a check logs, whether or not it comes to a report. Nothing is logged of a project that
cannot be opened. -/
def log (tree : FileTree) (options : CheckOptions) (bundles : List Bundle) : List LogEvent :=
  match Project.opened tree options with
  | .error _ => []
  | .ok project => project.log tree ++ BundleReport.logOfAll project tree (requested bundles)

/-- The issues of a severity. -/
def count (report : CheckReport) (severity : Severity) : Nat :=
  (report.issues.filter (·.severity = severity)).length

/-- The number of files and directories that were left out. -/
def skippedCount (report : CheckReport) : Nat :=
  report.skipped.length + report.inaccessible

end CheckReport

end LocaleKeys
