import LocaleKeys.Text.Lines

/-!
# Positions in a text

Lines and columns count from one, and columns count characters. A position is carried along the
text one character at a time (`Position.advance`), so the position after a text is one fold over
it. A `Cursor` carries the text of the current line as well.
-/

namespace LocaleKeys

/-- A line and a column of a text, both counted from one. -/
structure Position where
  line : Nat
  col : Nat
deriving DecidableEq

namespace Position

/-- The position of the first character. -/
def start : Position := ⟨1, 1⟩

/-- The position after a character. -/
def advance (p : Position) (c : Char) : Position :=
  if c = '\n' then ⟨p.line + 1, 1⟩ else ⟨p.line, p.col + 1⟩

/-- The position right after a text. -/
def after (text : List Char) : Position :=
  text.foldl advance start

/-- The order of positions in a text. -/
instance : Ord Position := ⟨fun a b => (compare a.line b.line).then (compare a.col b.col)⟩

end Position

/-- The text of a line, counted from one, without the carriage returns at its end; there is no
text beyond the last line. -/
def lineText (text : List Char) (line : Nat) : List Char :=
  Text.dropEndWhile (· == '\r') ((text.splitOn '\n').getD (line - 1) [])

/-- A place in a text that is being read. -/
structure Cursor where
  position : Position
  /-- What is left of the text from the start of the current line. -/
  fromLineStart : List Char

namespace Cursor

/-- The cursor at the start of a text. -/
def start (text : List Char) : Cursor := ⟨.start, text⟩

/-- The cursor after the character `c`, which `rest` follows. -/
def advance (cursor : Cursor) (c : Char) (rest : List Char) : Cursor :=
  ⟨cursor.position.advance c, if c = '\n' then rest else cursor.fromLineStart⟩

/-- The text of the current line without the carriage returns at its end. -/
def line (cursor : Cursor) : List Char :=
  Text.firstLine cursor.fromLineStart

end Cursor

/-- A position in a named file. -/
structure Location where
  file : String
  position : Position
deriving DecidableEq

namespace Location

/-- The location that stands for a whole file. -/
def ofFile (file : String) : Location := ⟨file, .start⟩

/-- The written form `file:line:col`. -/
def toText (location : Location) : String :=
  s!"{location.file}:{location.position.line}:{location.position.col}"

/-- Locations are ordered by file, then by position. -/
instance : Ord Location := ⟨fun a b => (compare a.file b.file).then (compare a.position b.position)⟩

end Location

end LocaleKeys
