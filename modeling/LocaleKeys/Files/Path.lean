/-!
# Paths

A path is a text, and most of what is done with a path is done to its text: `join` writes one path
behind another, `parent?` cuts the last component off. Paths are compared by their components,
which leave out repeated slashes, slashes at the end and every `.` but a leading one.
-/

namespace LocaleKeys

/-- A path, as it is spelled. -/
structure Path where
  chars : List Char
deriving DecidableEq

/-- A part of a path. -/
inductive Path.Component where
  /-- The root directory, at the start of an absolute path. -/
  | root
  /-- The directory itself, at the start of a path. -/
  | here
  /-- The directory above. -/
  | up
  /-- An entry of a directory. -/
  | name (chars : List Char)
deriving DecidableEq

namespace Path

/-- A path from its text. -/
def ofText (text : String) : Path := ⟨text.toList⟩

/-- The text of a path. -/
def toText (path : Path) : String := String.ofList path.chars

/-- The parts of the text between slashes. There is always one. -/
def segments (path : Path) : List (List Char) :=
  path.chars.splitOn '/'

/-- The text of parts with slashes between them. -/
def ofSegments (segments : List (List Char)) : Path :=
  ⟨List.intercalate ['/'] segments⟩

/-- A part that adds no component behind others. -/
def isIdle (segment : List Char) : Bool :=
  segment == [] || segment == ['.']

/-- The component of a part that is not idle. -/
def componentOf (segment : List Char) : Component :=
  if segment = ['.', '.'] then .up else .name segment

/-- The components of a path. -/
def components (path : Path) : List Component :=
  match path.segments with
  | [] => []
  | first :: rest =>
    let tail := (rest.filter (!isIdle ·)).map componentOf
    if first = [] then if rest = [] then [] else .root :: tail
    else if first = ['.'] then .here :: tail
    else componentOf first :: tail

/-- The path begins at the root directory. -/
def isAbsolute (path : Path) : Bool :=
  path.chars.head? == some '/'

/-- The parts of a path behind where it begins, so without the empty one in front of the slash that
is the root directory. -/
def steps (path : Path) : List (List Char) :=
  if path.isAbsolute then path.segments.tail else path.segments

/-- A path behind another one. An absolute path stands alone; behind the empty path there is no
slash. -/
def join (base path : Path) : Path :=
  if path.isAbsolute || base.chars.isEmpty then path
  else if base.chars.getLast? = some '/' then ⟨base.chars ++ path.chars⟩
  else ⟨base.chars ++ '/' :: path.chars⟩

/-- A path of names behind another path. -/
def descend (base : Path) (names : List (List Char)) : Path :=
  names.foldl (fun path name => path.join ⟨name⟩) base

/-- The components of a path begin with those of another path. -/
def startsWith (path start : Path) : Bool :=
  start.components.isPrefixOf path.components

/-- A list of parts without idle parts at its end. -/
def dropIdleEnd (segments : List (List Char)) : List (List Char) :=
  (segments.reverse.dropWhile isIdle).reverse

/-- The path without its last component. The empty path and the root directory have none to
lose. -/
def parent? (path : Path) : Option Path :=
  match path.segments with
  | [] => none
  | first :: rest =>
    let kept := dropIdleEnd (dropIdleEnd rest).dropLast
    if (dropIdleEnd rest).isEmpty then
      if first = [] then none else some ⟨[]⟩
    else if first = [] ∧ kept.isEmpty then some ⟨['/']⟩
    else some (ofSegments (first :: kept))

/-- The path without a leading `.`; whatever idle parts stand around the rest go with it. -/
def withoutHere (path : Path) : Path :=
  match path.segments with
  | ['.'] :: rest => ofSegments (dropIdleEnd (rest.dropWhile isIdle))
  | _ => path

/-- The last component of a path, if it is a name. -/
def fileName? (path : Path) : Option (List Char) :=
  match path.components.getLast? with
  | some (.name chars) => some chars
  | _ => none

/-- What follows the last dot of a name. A dot at the start of a name does not count. -/
def extensionOf? (name : List Char) : Option (List Char) :=
  match (name.splitOn '.').reverse with
  | [] | [_] | [_, []] => none
  | extension :: _ => some extension

/-- The extension of the last component. -/
def extension? (path : Path) : Option (List Char) :=
  path.fileName?.bind extensionOf?

/-- The start of every relative search, the directory itself. -/
def here : Path := ⟨['.']⟩

/-- The root directory. -/
def root : Path := ⟨['/']⟩

end Path

end LocaleKeys
