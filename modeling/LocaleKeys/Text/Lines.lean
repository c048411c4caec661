import LocaleKeys.Text.Space

/-!
# Lines of a text

A text is cut at each newline. `lines` is the reading of a line-oriented file: the newline that
ends the text opens no further line, and one carriage return right before a newline belongs to
the line's end. A carriage return anywhere else is an ordinary character.
-/

namespace LocaleKeys.Text

/-- A line without one carriage return at its end. -/
def dropReturn (line : List Char) : List Char :=
  if line.getLast? = some '\r' then line.dropLast else line

/-- The pieces between newlines, read as lines: every piece but the last stood before a newline,
and an empty last piece is no line. -/
def linesOfPieces : List (List Char) → List (List Char)
  | [] => []
  | [last] => if last.isEmpty then [] else [last]
  | piece :: pieces => dropReturn piece :: linesOfPieces pieces

/-- The lines of a text, without their ends. -/
def lines (text : List Char) : List (List Char) :=
  linesOfPieces (text.splitOn '\n')

/-- The text up to its first newline. -/
def firstPiece (text : List Char) : List Char :=
  text.takeWhile (· != '\n')

/-- The text up to its first newline without the carriage returns at its end. -/
def firstLine (text : List Char) : List Char :=
  dropEndWhile (· == '\r') (firstPiece text)

end LocaleKeys.Text
