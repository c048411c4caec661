import LocaleKeys.Json.Value

/-!
# Writing JSON

A value is written over several lines: every item of an array and every member of an object on
its own line, two spaces further in than the brackets. Empty arrays and objects stay on one line.
In a string only the quote, the backslash and control characters are escaped.
-/

namespace LocaleKeys.Json

/-- The last of the hexadecimal digits of a number. -/
def hexDigit (n : Nat) : Char :=
  Nat.digitChar (n % 16)

/-- The escape of a code unit by its number. -/
def unitEscape (unit : Nat) : List Char :=
  ['\\', 'u', hexDigit (unit / 4096), hexDigit (unit / 256), hexDigit (unit / 16), hexDigit unit]

/-- A code point inside of a string. -/
def printUnit (unit : Nat) : List Char :=
  if unit = 0x22 then ['\\', '"']
  else if unit = 0x5C then ['\\', '\\']
  else if unit = 0x08 then ['\\', 'b']
  else if unit = 0x0C then ['\\', 'f']
  else if unit = 0x0A then ['\\', 'n']
  else if unit = 0x0D then ['\\', 'r']
  else if unit = 0x09 then ['\\', 't']
  else if unit < 0x20 ∨ Text.isHighSurrogate unit ∨ Text.isLowSurrogate unit then unitEscape unit
  else [Char.ofNat unit]

/-- A string with its quotes. -/
def printString (units : List Nat) : List Char :=
  '"' :: units.flatMap printUnit ++ ['"']

/-- The start of a line at a depth of brackets. -/
def newLine (depth : Nat) : List Char :=
  '\n' :: List.replicate (2 * depth) ' '

mutual

/-- A value inside of brackets of the given depth. -/
def printAt (depth : Nat) : Json → List Char
  | .null => "null".toList
  | .bool b => if b then "true".toList else "false".toList
  | .number literal => literal
  | .string units => printString units
  | .array [] => ['[', ']']
  | .array (item :: items) =>
    '[' :: newLine (depth + 1) ++ printAt (depth + 1) item ++ printItems (depth + 1) items
      ++ newLine depth ++ [']']
  | .object [] => ['\x7b', '\x7d']
  | .object (first :: members) =>
    '\x7b' :: newLine (depth + 1) ++ printMember (depth + 1) first
      ++ printMembers (depth + 1) members ++ newLine depth ++ ['\x7d']

/-- Further items of an array. -/
def printItems (depth : Nat) : List Json → List Char
  | [] => []
  | item :: items => ',' :: newLine depth ++ printAt depth item ++ printItems depth items

/-- A member of an object. -/
def printMember (depth : Nat) : List Nat × Json → List Char
  | (name, value) => printString name ++ ':' :: ' ' :: printAt depth value

/-- Further members of an object. -/
def printMembers (depth : Nat) : List (List Nat × Json) → List Char
  | [] => []
  | first :: members =>
    ',' :: newLine depth ++ printMember depth first ++ printMembers depth members

end

/-- The text of a value. -/
def print (value : Json) : List Char :=
  printAt 0 value

end LocaleKeys.Json
