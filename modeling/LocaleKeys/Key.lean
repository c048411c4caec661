import LocaleKeys.Text.Space
import LocaleKeys.Text.Word

/-!
# Localization keys

A key is written in code as plain text (`Open file: %0`) and stored in a resource file in an
escaped form (`Open_file\:_%0`). Keys are compared in the escaped form, `Key.propertiesKey`.
-/

namespace LocaleKeys

/-- A localization key, as the text that code or a resource file gives for it. -/
structure Key where
  text : String
deriving DecidableEq

namespace Key

/-- The escaped form of a key text: a space becomes an underscore, and the separators `=` and `:`
of a resource file get a backslash in front. -/
def escape : List Char → List Char
  | [] => []
  | c :: rest =>
    if c = ' ' then '_' :: escape rest
    else if c = '=' ∨ c = ':' then '\\' :: c :: escape rest
    else c :: escape rest

/-- The key in the form that a resource file stores. -/
def propertiesKey (key : Key) : String :=
  String.ofList (escape key.text.toList)

/-- The key that a resource file defines by a key text; white space around the text is not part
of the key. -/
def ofResource (text : List Char) : Key :=
  ⟨String.ofList (Text.trim text)⟩

/-- A key whose escaped form is white space only names nothing. -/
def isBlank (key : Key) : Bool :=
  key.propertiesKey.toList.all Text.isSpace

/-- Why a key can never be read back from a resource file. -/
inductive Defect where
  /-- The key ends with a space. -/
  | trailingSpace
  /-- The key contains the escape of a newline. -/
  | embeddedNewline
deriving DecidableEq

/-- What is said about a defect. -/
def Defect.message : Defect → String
  | .trailingSpace => "ends with a space. As this is a localization key, this is illegal!"
  | .embeddedNewline =>
    "contains a new line character. As this is a localization key, this is illegal!"

/-- The defect of a key, if it has one; a space at the end is reported first. -/
def defect? (key : Key) : Option Defect :=
  let stored := key.propertiesKey.toList
  if stored.getLast? = some '_' then some .trailingSpace
  else if Text.containsWord ['\\', 'n'] stored then some .embeddedNewline
  else none

end Key

end LocaleKeys
