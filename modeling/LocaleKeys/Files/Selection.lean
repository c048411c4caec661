import LocaleKeys.Glob.Search
import LocaleKeys.Log

/-!
# Source and markup files of a tree

The files to check are those below a base directory, or below the directories that includes name,
which no ignore covers and which have one of the extensions asked for. Includes and ignores are
plain paths behind the base directory, or patterns: an include pattern is searched for behind the
base directory, an ignore pattern is matched against the whole path of a file.
-/

namespace LocaleKeys

/-- What to look for below a base directory. -/
structure Selection where
  base : Path
  includes : List (List Char)
  ignores : List (List Char)
  sourceExtensions : List (List Char)
  markupExtensions : List (List Char)
deriving DecidableEq

/-- The files found, by kind, each list in increasing order. -/
structure SelectedFiles where
  sources : List Path
  markup : List Path
  /-- The number of directories that could not be entered. -/
  inaccessible : Nat
deriving DecidableEq

namespace Selection

/-- The directories that an include names. A faulty pattern, and a path that leads nowhere, name
none. -/
def includedBy (tree : FileTree) (base : Path) (item : List Char) : List Path :=
  let path := base.join ⟨item⟩
  if Glob.isPatternText item then (Glob.directories tree path.chars).toOption.getD []
  else if tree.contains path then [path] else []

/-- The directories to walk through. -/
def startingPoints (selection : Selection) (tree : FileTree) : List Path :=
  if selection.includes.isEmpty then [selection.base]
  else selection.includes.flatMap (includedBy tree selection.base)

/-- An ignore covers a path. A faulty pattern covers none. -/
def covers (base : Path) (item : List Char) (path : Path) : Bool :=
  if Glob.isPatternText item then
    match Glob.Pattern.parse item with
    | .ok pattern => pattern.accepts path.chars
    | .error _ => false
  else path.startsWith (base.join ⟨item⟩)

/-- Some ignore covers the path. -/
def isIgnored (selection : Selection) (path : Path) : Bool :=
  selection.ignores.any fun item => covers selection.base item path

/-- The path has one of the extensions. -/
def hasExtension (extensions : List (List Char)) (path : Path) : Bool :=
  path.extension?.any extensions.contains

/-- The path is that of a source file. -/
def isSource (selection : Selection) (path : Path) : Bool :=
  hasExtension selection.sourceExtensions path

/-- The path is that of a markup file, and not of a source file. -/
def isMarkup (selection : Selection) (path : Path) : Bool :=
  hasExtension selection.markupExtensions path && !selection.isSource path

/-- The files at or below the starting points that no ignore covers. -/
def candidates (selection : Selection) (tree : FileTree) : List Path :=
  ((selection.startingPoints tree).flatMap fun start => (tree.walk? start).getD []).filterMap
    fun (path, node) =>
      match node with
      | .directory => none
      | .file _ => if selection.isIgnored path then none else some path

end Selection

/-- The first path is not behind the second in the order of their texts. -/
def Path.before (a b : Path) : Bool :=
  (compare a.toText b.toText).isLE

/-- Paths in increasing order, each once. -/
def Path.sorted (paths : List Path) : List Path :=
  (paths.mergeSort Path.before).eraseReps

/-- The files of a tree to check. -/
def Selection.select (selection : Selection) (tree : FileTree) : SelectedFiles :=
  let candidates := selection.candidates tree
  { sources := Path.sorted (candidates.filter selection.isSource)
    markup := Path.sorted (candidates.filter selection.isMarkup)
    inaccessible := ((selection.startingPoints tree).map tree.inaccessible).foldl (· + ·) 0 }

/-! ## What is logged -/

namespace Selection

/-- The warning about an ignore that is a faulty pattern. -/
def ignoreWarning? (item : List Char) : Option LogEvent :=
  if Glob.isPatternText item then
    match Glob.Pattern.parse item with
    | .ok _ => none
    | .error e =>
      some ⟨.warning, "invalid ignore pattern",
        [("pattern", String.ofList item), ("error", e.message)]⟩
  else none

/-- The warning about an include that is a faulty pattern or a path that leads nowhere. -/
def includeWarning? (tree : FileTree) (base : Path) (item : List Char) : Option LogEvent :=
  let path := base.join ⟨item⟩
  if Glob.isPatternText item then
    match Glob.directories tree path.chars with
    | .ok _ => none
    | .error e =>
      some ⟨.warning, "invalid include pattern",
        [("pattern", String.ofList item), ("error", e.message)]⟩
  else if tree.contains path then none
  else some ⟨.warning, "include path does not exist", [("path", path.toText)]⟩

/-- The warning about a path that cannot be accessed. -/
def accessWarning (path : Path) (error : ReadError) : LogEvent :=
  ⟨.warning, "cannot access path",
    [("error", s!"IO error for operation on {path.toText}: {error.message}")]⟩

/-- What is logged while files are selected. -/
def log (selection : Selection) (tree : FileTree) : List LogEvent :=
  let files := selection.select tree
  selection.ignores.filterMap ignoreWarning?
    ++ selection.includes.filterMap (includeWarning? tree selection.base)
    ++ ((selection.startingPoints tree).flatMap tree.accessErrors).map
      (fun (path, error) => accessWarning path error)
    ++ [⟨.debug, "file tree scanned",
      [("sources", toString files.sources.length), ("markup", toString files.markup.length)]⟩]

end Selection

end LocaleKeys
