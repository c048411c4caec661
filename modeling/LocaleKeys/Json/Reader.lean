import LocaleKeys.Json.Token
import LocaleKeys.Json.Value

/-!
# Reading JSON

The tokens of a JSON text are taken one by one, with the arrays and objects around the current
place on a stack. The text is one value, with nothing after it.
-/

namespace LocaleKeys.Json

/-- An array or object that is still open. What it holds so far is in reverse. -/
inductive Frame where
  | array (items : List Json)
  /-- An object in which a value of the given name is to come. -/
  | object (members : List (List Nat × Json)) (name : List Nat)

/-- What may come next, with the open arrays and objects around it. -/
inductive State where
  | value (stack : List Frame)
  /-- The first item of an array, or its end. -/
  | firstItem (stack : List Frame)
  /-- The name of the first member of an object, or its end. -/
  | firstName (stack : List Frame)
  | name (members : List (List Nat × Json)) (stack : List Frame)
  | colon (members : List (List Nat × Json)) (name : List Nat) (stack : List Frame)
  /-- What follows a value. -/
  | after (value : Json) (stack : List Frame)

namespace State

/-- The state after the first token of a value. -/
def begin? (stack : List Frame) : Token → Option State
  | .openArray => some (.firstItem stack)
  | .openObject => some (.firstName stack)
  | .null => some (.after .null stack)
  | .bool b => some (.after (.bool b) stack)
  | .number literal => some (.after (.number literal) stack)
  | .string units => some (.after (.string units) stack)
  | .closeArray | .closeObject | .comma | .colon => none

/-- The state after one more token. -/
def next? : State → Token → Option State
  | .value stack, token => begin? stack token
  | .firstItem stack, .closeArray => some (.after (.array []) stack)
  | .firstItem stack, token => begin? (.array [] :: stack) token
  | .firstName stack, .closeObject => some (.after (.object []) stack)
  | .firstName stack, .string units => some (.colon [] units stack)
  | .name members stack, .string units => some (.colon members units stack)
  | .colon members units stack, .colon => some (.value (.object members units :: stack))
  | .after v (.array items :: stack), .comma => some (.value (.array (v :: items) :: stack))
  | .after v (.array items :: stack), .closeArray =>
    some (.after (.array (v :: items).reverse) stack)
  | .after v (.object members units :: stack), .comma =>
    some (.name ((units, v) :: members) stack)
  | .after v (.object members units :: stack), .closeObject =>
    some (.after (.object ((units, v) :: members).reverse) stack)
  | _, _ => none

/-- The value, if the text may end here. -/
def finish? : State → Option Json
  | .after v [] => some v
  | _ => none

end State

/-- The value that tokens write. -/
def ofTokens? (tokens : List Token) : Option Json :=
  (tokens.foldlM State.next? (.value [])).bind State.finish?

/-- The value that a text writes. -/
def parse? (text : List Char) : Option Json :=
  (Token.cut? text).bind ofTokens?

end LocaleKeys.Json
