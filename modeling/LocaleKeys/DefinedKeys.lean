import LocaleKeys.Key
import LocaleKeys.Log
import LocaleKeys.Properties.Entry
import LocaleKeys.SortedMap

/-!
# Keys that a base resource file defines

The keys of a base resource file in their stored form, each with the line of its first
definition. A later definition of the same key counts as a repeated definition and changes
nothing else.
-/

namespace LocaleKeys

/-- A definition of a key that an earlier line defines as well. -/
structure RepeatedKey where
  key : String
  line : Nat
  /-- The line of the definition that counts. -/
  firstLine : Nat
deriving DecidableEq

/-- The keys that a base resource file defines. -/
structure DefinedKeys where
  file : String
  /-- The line of each key. -/
  lines : SortedMap String Nat
  /-- The repeated definitions, in the order of the file. -/
  repeated : List RepeatedKey
deriving DecidableEq

namespace DefinedKeys

/-- The keys of a file without definitions. -/
def empty (file : String) : DefinedKeys := ⟨file, .empty, []⟩

/-- The keys with a further definition of the file. -/
def define (defined : DefinedKeys) (entry : Properties.Entry) : DefinedKeys :=
  let key := (Key.ofResource entry.key).propertiesKey
  match defined.lines.find? key with
  | some firstLine =>
    { defined with repeated := defined.repeated ++ [⟨key, entry.line, firstLine⟩] }
  | none => { defined with lines := defined.lines.upsert key fun _ => entry.line }

/-- The keys that the definitions of a file define. -/
def ofEntries (file : String) (entries : List Properties.Entry) : DefinedKeys :=
  entries.foldl define (empty file)

/-- The keys that the text of a resource file defines. -/
def parse (file : String) (text : List Char) : Except Properties.MalformedEscape DefinedKeys :=
  (Properties.parse text).map (ofEntries file)

/-- The file defines a key of this stored form. -/
def contains (defined : DefinedKeys) (key : String) : Bool :=
  defined.lines.contains key

/-- The line that defines a key of this stored form. -/
def lineOf? (defined : DefinedKeys) (key : String) : Option Nat :=
  defined.lines.find? key

/-- What is logged about the repeated definitions of a file. -/
def log (defined : DefinedKeys) : List LogEvent :=
  defined.repeated.map fun repeated =>
    ⟨.debug, s!"duplicate key in {defined.file}",
      [("key", repeated.key), ("line", toString repeated.line),
        ("first_line", toString repeated.firstLine)]⟩

end DefinedKeys

end LocaleKeys
