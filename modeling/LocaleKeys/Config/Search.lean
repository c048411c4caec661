import LocaleKeys.Config.Json
import LocaleKeys.Files.Tree
import LocaleKeys.Text.Quoted

/-!
# Finding the configuration of a project

The configuration file is looked for in a directory, then in the directories that its path names
above it, up to the one that holds the repository. Without a file a project has the standard
settings.
-/

namespace LocaleKeys.Config

/-- The name of the configuration file. -/
def fileName : String := ".l10nscanrc.json"

/-- The name of the entry that marks the top directory of a repository. -/
def repositoryMark : String := ".git"

/-- A path and the paths that come of it by taking away components, as many as allowed. -/
def ancestorsUpTo : Nat → Path → List Path
  | 0, path => [path]
  | n + 1, path =>
    match path.parent? with
    | none => [path]
    | some parent => path :: ancestorsUpTo n parent

/-- A path and all paths that come of it by taking away components. Each is shorter than the one
before it. -/
def ancestors (path : Path) : List Path :=
  ancestorsUpTo path.chars.length path

/-- The path of the configuration file in the first directory that has one; a directory that holds
the repository is the last one that counts. -/
def searchIn (tree : FileTree) : List Path → Option Path
  | [] => none
  | directory :: above =>
    let file := directory.join (.ofText fileName)
    if tree.contains file then some file
    else if tree.contains (directory.join (.ofText repositoryMark)) then none
    else searchIn tree above

/-- The path of the configuration file for a directory. -/
def find? (tree : FileTree) (start : Path) : Option Path :=
  searchIn tree (ancestors start)

/-- Why a configuration cannot be loaded. -/
inductive LoadError where
  | unreadable (file : Path) (error : ReadError)
  /-- The file holds no settings. -/
  | malformed (file : Path) (detail : String)
  | unusable (fault : Fault)
deriving DecidableEq

/-- The report of a configuration that cannot be loaded. -/
def LoadError.message : LoadError → String
  | .unreadable file error =>
    let name := String.ofList (Text.quoted file.chars)
    s!"Failed to read config file: {name}: {error.message}"
  | .malformed file detail =>
    let name := String.ofList (Text.quoted file.chars)
    s!"Failed to parse config file: {name}: {detail}"
  | .unusable fault => fault.message

/-- What is said about a file without settings. -/
def malformedDetail : String := "not a JSON document of settings"

/-- The settings of a project, and the directory of the file that they come from, if there is
one. -/
structure Loaded where
  config : Config
  directory? : Option Path
deriving DecidableEq

/-- The settings in the file at a path. -/
def loadFile (tree : FileTree) (file : Path) : Except LoadError Loaded :=
  match tree.read file with
  | .error error => .error (.unreadable file error)
  | .ok text =>
    match parse? text with
    | none => .error (.malformed file malformedDetail)
    | some config =>
      match config.fault? with
      | some fault => .error (.unusable fault)
      | none => .ok ⟨config, file.parent?⟩

/-- The settings of the project that a directory belongs to. -/
def load (tree : FileTree) (start : Path) : Except LoadError Loaded :=
  match find? tree start with
  | none => .ok ⟨standard, none⟩
  | some file => loadFile tree file

end LocaleKeys.Config
