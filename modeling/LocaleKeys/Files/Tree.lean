import LocaleKeys.Files.Path

/-!
# File trees

A tree of files is the list of the places in it, each with what is there, together with the place of
the working directory. A place is named by the entry names on the way from the root directory. A path
is followed entry by entry, from the root directory if it is absolute and from the working directory
otherwise. The directories on the way to the working directory are there whatever the tree lists.
-/

namespace LocaleKeys

/-- What a file holds, read as text. -/
inductive Content where
  | text (chars : List Char)
  /-- Bytes that are no text. -/
  | undecodable
deriving DecidableEq

/-- What is at a place of a tree. -/
inductive FileNode where
  | file (content : Content)
  | directory
deriving DecidableEq

/-- The way from the root directory to a place of a tree. -/
abbrev Place := List (List Char)

namespace Place

/-- The places on the way to a place, itself included. -/
def onWayTo (place : Place) : List Place :=
  (List.range place.length).map fun n => place.take (n + 1)

/-- Where a component of a path leads from a place. The root directory is above itself. -/
def step (place : Place) : Path.Component → Place
  | .root => []
  | .here => place
  | .up => place.dropLast
  | .name chars => place ++ [chars]

end Place

/-- A tree of files. -/
structure FileTree where
  /-- The place of the working directory. -/
  working : Place
  /-- What is at the places that the tree lists. -/
  nodes : List (Place × FileNode)
deriving DecidableEq

/-- Why a file cannot be read. -/
inductive ReadError where
  | notFound
  | notDirectory
  | isDirectory
  | nameTooLong
  | nulInPath
  | undecodable
deriving DecidableEq

/-- The report of a failure to read a file. -/
def ReadError.message : ReadError → String
  | .notFound => "No such file or directory (os error 2)"
  | .notDirectory => "Not a directory (os error 20)"
  | .isDirectory => "Is a directory (os error 21)"
  | .nameTooLong => "File name too long (os error 36)"
  | .nulInPath => "file name contained an unexpected NUL byte"
  | .undecodable => "stream did not contain valid UTF-8"

namespace FileTree

/-- The tree without any entry, worked on from the root directory. -/
def empty : FileTree := ⟨[], []⟩

/-- What is at all places but the root directory: the directories on the way to the working directory
and what the tree lists. -/
def entries (tree : FileTree) : List (Place × FileNode) :=
  tree.working.onWayTo.map (·, .directory) ++ tree.nodes

/-- What is at a place. The root directory is a directory. -/
def nodeAt? (tree : FileTree) (place : Place) : Option FileNode :=
  if place.isEmpty then some .directory else tree.entries.lookup place

/-- The place where a path begins. -/
def origin (tree : FileTree) (path : Path) : Place :=
  if path.isAbsolute then [] else tree.working

/-- The place that the names in a path spell. -/
def placeOf (tree : FileTree) (path : Path) : Place :=
  path.components.foldl Place.step tree.working

/-- The number of bytes of an encoded text. -/
def byteCount (chars : List Char) : Nat :=
  chars.foldr (fun c n => c.utf8Size + n) 0

/-- The longest entry name, in bytes. -/
def nameLimit : Nat := 255

/-- The longest path, in bytes. -/
def pathLimit : Nat := 4095

/-- Where the parts of a path lead to from somewhere, and what is there. Something follows in
every part but the last, so a part that is not the last one must lead to a directory. -/
def follow (tree : FileTree) (place : Place) (node : FileNode) :
    List (List Char) → Except ReadError (Place × FileNode)
  | [] => .ok (place, node)
  | segment :: rest =>
    if node ≠ .directory then .error .notDirectory
    else if Path.isIdle segment then tree.follow place node rest
    else if segment = ['.', '.'] then tree.follow place.dropLast .directory rest
    else if nameLimit < byteCount segment then .error .nameTooLong
    else
      match tree.nodeAt? (place ++ [segment]) with
      | none => .error .notFound
      | some node => tree.follow (place ++ [segment]) node rest

/-- The path is too long to be followed. -/
def isTooLong (path : Path) : Bool :=
  decide (pathLimit < byteCount path.chars)

/-- Where a path leads, and what is there. -/
def find (tree : FileTree) (path : Path) : Except ReadError (Place × FileNode) :=
  if path.chars.contains '\x00' then .error .nulInPath
  else if path.chars.isEmpty then .error .notFound
  else if isTooLong path then .error .nameTooLong
  else tree.follow (tree.origin path) .directory path.segments

/-- A path leads somewhere. -/
def contains (tree : FileTree) (path : Path) : Bool :=
  (tree.find path).isOk

/-- A path leads to a directory. -/
def isDirectory (tree : FileTree) (path : Path) : Bool :=
  match tree.find path with
  | .ok (_, .directory) => true
  | _ => false

/-- The text of the file that a path leads to. -/
def read (tree : FileTree) (path : Path) : Except ReadError (List Char) :=
  match tree.find path with
  | .error e => .error e
  | .ok (_, .directory) => .error .isDirectory
  | .ok (_, .file .undecodable) => .error .undecodable
  | .ok (_, .file (.text chars)) => .ok chars

/-- The way from one place to another one at or below it. -/
def wayFrom? : Place → Place → Option (List (List Char))
  | [], place => some place
  | _ :: _, [] => none
  | a :: start, b :: place => if a = b then wayFrom? start place else none

/-- The places strictly below a place, as ways from it, and what is there. -/
def below (tree : FileTree) (place : Place) : List (List (List Char) × FileNode) :=
  tree.entries.filterMap fun (other, node) =>
    ((wayFrom? place other).filter (!·.isEmpty)).map (·, node)

/-- What a path leads to and everything below, each under the path that the entry names make
behind the given one. There is nothing if the path leads nowhere, and there are no entries of a
directory the path of which is too long. -/
def walk? (tree : FileTree) (path : Path) : Option (List (Path × FileNode)) :=
  match tree.find path with
  | .error _ => none
  | .ok (place, node) =>
    some ((path, node) :: (tree.below place).filterMap fun (way, node) =>
      if isTooLong (path.descend way.dropLast) then none else some (path.descend way, node))

/-- What a walk from a path cannot access, and why: directories that it cannot enter, or the path
itself, if it leads nowhere. -/
def accessErrors (tree : FileTree) (path : Path) : List (Path × ReadError) :=
  match tree.find path with
  | .error error => [(path, error)]
  | .ok _ =>
    ((tree.walk? path).getD []).filterMap fun (path, node) =>
      if node == .directory && isTooLong path then some (path, .nameTooLong) else none

/-- The number of paths that a walk from a path cannot access. -/
def inaccessible (tree : FileTree) (path : Path) : Nat :=
  (tree.accessErrors path).length

/-! ## Changes -/

/-- The tree with a directory at a place where there is nothing yet. -/
def addDirectory (tree : FileTree) (place : Place) : FileTree :=
  if (tree.nodeAt? place).isSome then tree
  else { tree with nodes := tree.nodes ++ [(place, .directory)] }

/-- The tree with directories at all places on the way to a place, itself included. -/
def addDirectories (tree : FileTree) (place : Place) : FileTree :=
  place.onWayTo.foldl addDirectory tree

/-- The tree with a file at a place, which takes the place of a file that is there. -/
def writeAt (tree : FileTree) (place : Place) (content : Content) : FileTree :=
  match tree.nodeAt? place with
  | some .directory => tree
  | some (.file _) =>
    { tree with
      nodes := tree.nodes.map fun (other, node) =>
        (other, if other = place then .file content else node) }
  | none => { tree with nodes := tree.nodes ++ [(place, .file content)] }

/-- The tree with a file, in directories that are made as they are needed. -/
def write (tree : FileTree) (path : Path) (content : Content) : FileTree :=
  let place := tree.placeOf path
  (tree.addDirectories place.dropLast).writeAt place content

/-- The tree without a file, or without a directory and everything in it. -/
def remove (tree : FileTree) (path : Path) : FileTree :=
  let place := tree.placeOf path
  { tree with nodes := tree.nodes.filter fun (other, _) => (wayFrom? place other).isNone }

end FileTree

end LocaleKeys
