import LocaleKeys.Text.Lines

/-!
# Logical lines of a resource file

A resource file is read line by line. Blank lines and comment lines hold nothing. Any other line
opens a logical line, which goes on with the next natural line as long as its text ends in an odd
number of backslashes; the last of them is taken away. Blanks at the start of a natural line
never count.
-/

namespace LocaleKeys.Properties

/-- The characters that separate words on a line of a resource file. -/
def isBlank (c : Char) : Bool :=
  c == ' ' || c == '\t' || c == '\x0c'

/-- One or more natural lines read as one. -/
structure LogicalLine where
  text : List Char
  /-- The number of its first natural line, counted from one. -/
  line : Nat
deriving DecidableEq

namespace LogicalLine

/-- A text that the next natural line continues: it ends in an odd number of backslashes. -/
def continues (text : List Char) : Bool :=
  (text.reverse.takeWhile (· == '\\')).length % 2 == 1

/-- A natural line, without the blanks at its start, that opens no logical line. -/
def isIgnored : List Char → Bool
  | [] => true
  | c :: _ => c == '#' || c == '!'

/-- The logical lines of natural lines of which the first has number `line`, with a logical line
that they continue, if one is open. -/
def gather (line : Nat) : Option LogicalLine → List (List Char) → List LogicalLine
  | opened, [] => opened.toList
  | none, natural :: rest =>
    let text := natural.dropWhile isBlank
    if isIgnored text then gather (line + 1) none rest
    else if continues text then gather (line + 1) (some ⟨text.dropLast, line⟩) rest
    else ⟨text, line⟩ :: gather (line + 1) none rest
  | some opened, natural :: rest =>
    let text := opened.text ++ natural.dropWhile isBlank
    if continues text then gather (line + 1) (some ⟨text.dropLast, opened.line⟩) rest
    else ⟨text, opened.line⟩ :: gather (line + 1) none rest

/-- The logical lines of a text. -/
def ofText (text : List Char) : List LogicalLine :=
  gather 1 none (Text.lines text)

end LogicalLine

end LocaleKeys.Properties
