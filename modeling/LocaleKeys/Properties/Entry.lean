import LocaleKeys.Properties.Escape
import LocaleKeys.Properties.LogicalLine

/-!
# Entries of a resource file

Each logical line defines a value for a key. The key ends at the first equals sign, colon or
blank that no backslash precedes; blanks and one equals sign or colon separate it from the value.
Key and value are cut apart first and unescaped afterwards.
-/

namespace LocaleKeys.Properties

/-- A definition of a resource file. -/
structure Entry where
  key : List Char
  value : List Char
  /-- The number of the line on which the definition starts. -/
  line : Nat
deriving DecidableEq

/-- An escape that stands for no character, on a logical line that starts at the given line. -/
structure MalformedEscape where
  line : Nat
deriving DecidableEq

/-- The report of a malformed escape. -/
def MalformedEscape.message (e : MalformedEscape) : String :=
  s!"malformed \\uxxxx encoding on line {e.line}"

/-- The characters that may stand between a key and its value. -/
def isSeparator (c : Char) : Bool :=
  c == '=' || c == ':'

/-- The raw key at the start of a logical line, and what follows it. -/
def spanKey : List Char → List Char × List Char
  | [] => ([], [])
  | '\\' :: c :: rest =>
    let (key, after) := spanKey rest
    ('\\' :: c :: key, after)
  | c :: rest =>
    if isSeparator c || isBlank c then ([], c :: rest)
    else
      let (key, after) := spanKey rest
      (c :: key, after)

/-- What is left after the blanks and the separator in front of a value. -/
def afterSeparator (text : List Char) : List Char :=
  match text.dropWhile isBlank with
  | [] => []
  | c :: rest => if isSeparator c then rest.dropWhile isBlank else c :: rest

/-- The raw key and the raw value of a logical line. -/
def splitKeyValue (text : List Char) : List Char × List Char :=
  let (key, after) := spanKey text
  (key, afterSeparator after)

/-- The definition on a logical line. -/
def Entry.ofLine? (logical : LogicalLine) : Except MalformedEscape Entry :=
  let (key, value) := splitKeyValue logical.text
  match unescape? key, unescape? value with
  | some key, some value => .ok ⟨key, value, logical.line⟩
  | _, _ => .error ⟨logical.line⟩

/-- The definitions of a text in order, repeated keys included. The first malformed escape makes
the whole text malformed. -/
def parse (text : List Char) : Except MalformedEscape (List Entry) :=
  (LogicalLine.ofText text).mapM Entry.ofLine?

end LocaleKeys.Properties
