import LocaleKeys.Bundle
import LocaleKeys.CallSite.Arguments
import LocaleKeys.Key
import LocaleKeys.Source.Position
import LocaleKeys.Text.Word

/-!
# Call sites in source code

A call site is the class name `Localization`, a dot, the bundle's method and an opening
parenthesis, with white space allowed between them. `CallSite.calls` finds them from left to right,
one behind the other, and `CallSite.scan` reads the key of each. Matching is lexical: a call written
in a comment, in a literal or inside the arguments of another call is a call site like any other.

A call without a literal key is passed over. The first call that is malformed ends the scan with
an `ExtractionError`.
-/

namespace LocaleKeys

/-- What is wrong with a call site. -/
inductive ExtractionError.Cause where
  /-- The text ends before the argument list does; the first line of the call is quoted. -/
  | unbalancedParentheses (snippet : String)
  /-- The key can never be read back from a resource file. -/
  | unusableKey (key : String) (defect : Key.Defect)
deriving DecidableEq

/-- A malformed call site, at the start of the call. -/
structure ExtractionError where
  position : Position
  cause : ExtractionError.Cause
deriving DecidableEq

namespace ExtractionError

/-- The report of a malformed call site. -/
def message (e : ExtractionError) : String :=
  let line := e.position.line
  let col := e.position.col
  match e.cause with
  | .unbalancedParentheses snippet =>
    s!"unbalanced parentheses in call at {line}:{col}: `{snippet}`"
  | .unusableKey key defect => s!"\"{key}\" at {line}:{col} {defect.message}"

end ExtractionError

/-- A key passed at a call site. -/
structure KeyOccurrence where
  key : Key
  position : Position
  /-- The line on which the call starts. -/
  sourceLine : String
deriving DecidableEq

namespace CallSite

/-- The name of the class whose methods look up keys. -/
def className : List Char := "Localization".toList

/-- What follows the opening parenthesis of a call of the bundle's method, if the text starts with
such a call. -/
def afterOpening? (bundle : Bundle) (text : List Char) : Option (List Char) := do
  let text ← Text.afterWord? className text
  let text ← Text.afterWord? ['.'] (text.dropWhile Text.isSpace)
  let text ← Text.afterWord? bundle.method.toList (text.dropWhile Text.isSpace)
  Text.afterWord? ['('] (text.dropWhile Text.isSpace)

/-- The number of characters of a call that an error message quotes. -/
def snippetLimit : Nat := 60

/-- The first line of a call as an error message quotes it, cut when it is long. -/
def snippet (call : List Char) : String :=
  let line := (Text.lines call).headD []
  if line.length > snippetLimit then String.ofList (line.take snippetLimit ++ "...".toList)
  else String.ofList line

/-- A call in a text. -/
structure Call where
  /-- The start of the call. -/
  cursor : Cursor
  /-- The text from the start of the call on. -/
  text : List Char
  /-- What follows the opening parenthesis. -/
  opened : List Char

/-- The calls that start in a text which the cursor stands before, if its first `inside` characters
belong to a call that is already known. The search for the next call goes on behind an opening
parenthesis. -/
def callsFrom (bundle : Bundle) (cursor : Cursor) (inside : Nat) : List Char → List Call
  | [] => []
  | c :: rest =>
    match inside with
    | inside + 1 => callsFrom bundle (cursor.advance c rest) inside rest
    | 0 =>
      match afterOpening? bundle (c :: rest) with
      | none => callsFrom bundle (cursor.advance c rest) 0 rest
      | some opened =>
        ⟨cursor, c :: rest, opened⟩
          :: callsFrom bundle (cursor.advance c rest) (rest.length - opened.length) rest

/-- The calls of the bundle's method in a text, in order. -/
def calls (bundle : Bundle) (text : List Char) : List Call :=
  callsFrom bundle (.start text) 0 text

namespace Call

/-- The key of a call. A call without a literal key has none. -/
def occurrence? (call : Call) : Except ExtractionError (Option KeyOccurrence) :=
  let position := call.cursor.position
  match argumentList? call.opened with
  | none => .error ⟨position, .unbalancedParentheses (snippet call.text)⟩
  | some arguments =>
    let key : Key := ⟨String.ofList (firstLiteral arguments)⟩
    match key.defect? with
    | some defect => .error ⟨position, .unusableKey key.text defect⟩
    | none =>
      if key.isBlank then .ok none
      else .ok (some ⟨key, position, String.ofList call.cursor.line⟩)

end Call

/-- The keys of calls, in order, or what is wrong with the first malformed one. -/
def occurrences : List Call → Except ExtractionError (List KeyOccurrence)
  | [] => .ok []
  | call :: more =>
    match call.occurrence? with
    | .error e => .error e
    | .ok found =>
      match occurrences more with
      | .error e => .error e
      | .ok others => .ok (found.toList ++ others)

/-- The keys of all calls of the bundle's method in a text, in order. -/
def scan (bundle : Bundle) (text : List Char) : Except ExtractionError (List KeyOccurrence) :=
  occurrences (calls bundle text)

end CallSite

end LocaleKeys
