import LocaleKeys.Text.CodeUnit

/-!
# JSON values

A JSON text is a value: a scalar, an array, or an object whose members keep their order and may
repeat a name. A string is the list of its code points as they are written, in which an escape
may have put a surrogate; `Json.decode?` puts pairs of surrogates together and refuses a
surrogate alone.
-/

namespace LocaleKeys

/-- A JSON value. -/
inductive Json where
  | null
  | bool (value : Bool)
  /-- A number, as it is written. -/
  | number (literal : List Char)
  | string (units : List Nat)
  | array (items : List Json)
  | object (members : List (List Nat × Json))

namespace Json

open Text (isHighSurrogate isLowSurrogate ofSurrogates)

/-- The code points of a text. -/
def encode (text : List Char) : List Nat :=
  text.map Char.toNat

/-- A string of the given text. -/
def ofText (text : String) : Json :=
  .string (encode text.toList)

/-- A natural number. -/
def ofNat (n : Nat) : Json :=
  .number (Nat.toDigits 10 n)

/-- An object of the given members. -/
def ofMembers (members : List (String × Json)) : Json :=
  .object (members.map fun (name, value) => (encode name.toList, value))

/-- The text of code points; there is none if a surrogate stands without its partner. -/
def decode? : List Nat → Option (List Char)
  | [] => some []
  | high :: low :: rest =>
    if isHighSurrogate high then
      if isLowSurrogate low then
        (decode? rest).map (ofSurrogates high low :: ·)
      else none
    else if isLowSurrogate high then none
    else (decode? (low :: rest)).map (Char.ofNat high :: ·)
  | [unit] =>
    if isHighSurrogate unit || isLowSurrogate unit then none else some [Char.ofNat unit]

/-- The text of a string value. -/
def text? : Json → Option (List Char)
  | .string units => decode? units
  | _ => none

/-- The texts of an array of strings. -/
def texts? : Json → Option (List (List Char))
  | .array items => items.mapM text?
  | _ => none

end Json

end LocaleKeys
