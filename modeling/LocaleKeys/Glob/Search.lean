import LocaleKeys.Files.Tree
import LocaleKeys.Glob.Pattern

/-!
# Searching a tree by a pattern

A pattern with slashes is searched for one path component at a time, from the root directory if it
begins with a slash and from the directory `.` otherwise. A component without wildcards is followed as
it is, `.` and `..` included; a component with wildcards is matched against the entries of a directory;
`**` stands for any entries below. The paths found are spelled by the names and plain components on the
way, so a leading `.` is not part of them.
-/

namespace LocaleKeys.Glob

/-- A component of a pattern. -/
inductive Component where
  /-- A component without wildcards. -/
  | plain (name : List Char)
  /-- A component with wildcards. -/
  | wild (pattern : Pattern)
  /-- Any number of components. -/
  | any
deriving DecidableEq

namespace Component

/-- The characters of tokens without wildcards. -/
def plainText? : List Token → Option (List Char)
  | [] => some []
  | .literal c :: tokens => (plainText? tokens).map (c :: ·)
  | _ :: _ => none

/-- The component that a pattern without slashes makes. -/
def ofPattern (pattern : Pattern) : Component :=
  if pattern.tokens = [.anyComponents] then .any
  else
    match plainText? pattern.tokens with
    | some name => .plain name
    | none => .wild pattern

/-- The component stands for an entry of this name. -/
def accepts (name : List Char) : Component → Bool
  | .plain text => text == name
  | .wild pattern => pattern.accepts name
  | .any => false

/-- Components with one more in front; any components twice are any components. -/
def cons : Component → List Component → List Component
  | .any, .any :: rest => .any :: rest
  | component, rest => component :: rest

end Component

/-- The parts of a pattern between slashes; a slash at the start opens the root directory, and one at
the end opens no further part. -/
def patternParts (text : List Char) : List (List Char) :=
  let parts := (Path.mk text).steps
  if parts.getLast? = some [] then parts.dropLast else parts

/-- The components of a pattern. The pattern is faulty if it is so as a whole or in one
of its components. -/
def componentsOf (text : List Char) : Except PatternError (List Component) := do
  let _ ← Pattern.parse text
  let patterns ← (patternParts text).mapM Pattern.parse
  return (patterns.map Component.ofPattern).foldr Component.cons []

/-- The directory where a search by a path as a pattern starts. -/
def startOf (path : Path) : Path :=
  if path.isAbsolute then .root else .here

/-- The directory where a relative search starts. Entries found there are spelled without it. -/
def isStart (path : Path) : Bool :=
  path.components == [.here]

/-- The path of an entry below a directory. -/
def entryPath (directory : Path) (way : List (List Char)) : Path :=
  if isStart directory then Path.descend ⟨[]⟩ way else directory.descend way

/-- The parts that name a directory itself and the one above it. -/
def specialNames : List (List Char) := [['.'], ['.', '.']]

/-- The names of a directory that a component with wildcards may stand for besides its entries. They
have to be asked for by a dot at the start. -/
def specialMatches (pattern : Pattern) : List (List Char) :=
  if pattern.tokens.head? = some (.literal '.') then specialNames.filter pattern.accepts else []

/-- What is below a directory, as ways from it. -/
def waysBelow (tree : FileTree) (path : Path) : List (List (List Char)) :=
  match tree.find path with
  | .ok (place, .directory) => (tree.below place).map (·.1)
  | _ => []

/-- The paths that components lead to from a path. -/
def search (tree : FileTree) : List Component → Path → List Path
  | [], path => [path]
  | .plain name :: rest, path =>
    let next := if isStart path then ⟨name⟩ else path.join ⟨name⟩
    let leads := if specialNames.contains name then tree.isDirectory path else tree.contains next
    if leads then search tree rest next else []
  | .wild pattern :: rest, path =>
    let names := (waysBelow tree path).filterMap fun way =>
      match way with
      | [name] => if pattern.accepts name then some name else none
      | _ => none
    names.flatMap (fun name => search tree rest (entryPath path [name]))
      ++ if tree.isDirectory path then
          (specialMatches pattern).flatMap fun name => search tree rest (path.join ⟨name⟩)
        else []
  | .any :: [], path => (waysBelow tree path).map (entryPath path)
  | .any :: next :: rest, path =>
    (waysBelow tree path).flatMap fun way =>
      if way.getLast?.any (next.accepts ·) then search tree rest (entryPath path way) else []

/-- The directories that a pattern finds in a tree. -/
def directories (tree : FileTree) (pattern : List Char) : Except PatternError (List Path) :=
  (componentsOf pattern).map fun components =>
    (search tree components (startOf ⟨pattern⟩)).filter tree.isDirectory

end LocaleKeys.Glob
