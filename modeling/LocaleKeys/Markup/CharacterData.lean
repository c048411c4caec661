import LocaleKeys.Markup.Character
import LocaleKeys.Text.CodeUnit

/-!
# Character data

The text of a document as a reader of the document sees it: references are replaced by their
characters, and line ends and white space are made uniform. What a reference stands for is exempt
from the latter.
-/

namespace LocaleKeys.Markup

/-- A character of character data, with its origin. -/
inductive Datum where
  /-- The character stands in the document. -/
  | written (c : Char)
  /-- A reference stands for the character. -/
  | referenced (c : Char)
deriving DecidableEq

/-- The value of a digit to a base of at most sixteen. -/
def digit? (base : Nat) (c : Char) : Option Nat :=
  (Text.hexDigit? c).filter (· < base)

/-- The number that digits to a base write. -/
def number? (base : Nat) (digits : List Char) : Option Nat :=
  if digits.isEmpty then none
  else digits.foldlM (fun value c => (digit? base c).map (value * base + ·)) 0

/-- The character of a code point; a number that is no code point of a character stands for the
replacement character. -/
def ofCodePoint (n : Nat) : Char :=
  if h : n.isValidChar then Char.ofNatAux n h else '\uFFFD'

/-- The character that a numeric reference stands for. The number must fit into 32 bits. -/
def numericReference? (base : Nat) (digits : List Char) : Option Char :=
  ((number? base digits).filter (· < 0x100000000)).bind fun n =>
    (some (ofCodePoint n)).filter isAllowed

/-- The character that the text between `&` and `;` stands for. -/
def reference? (body : List Char) : Option Char :=
  match body with
  | '#' :: 'x' :: digits => numericReference? 16 digits
  | '#' :: digits => numericReference? 10 digits
  | _ =>
    if body = "quot".toList then some '"'
    else if body = "apos".toList then some '\''
    else if body = "amp".toList then some '&'
    else if body = "lt".toList then some '<'
    else if body = "gt".toList then some '>'
    else none

namespace Datum

/-- The characters of a raw text, with `body` (in reverse) of an open reference already read.
There are none if a reference is malformed or unknown. -/
def readFrom (body : Option (List Char)) : List Char → Option (List Datum)
  | [] => if body.isNone then some [] else none
  | c :: rest =>
    match body with
    | none =>
      if c = '&' then readFrom (some []) rest
      else (readFrom none rest).map (.written c :: ·)
    | some body =>
      if c = ';' then
        (reference? body.reverse).bind fun c => (readFrom none rest).map (.referenced c :: ·)
      else readFrom (some (c :: body)) rest

/-- The characters of a raw text, with references replaced. -/
def read? (raw : List Char) : Option (List Datum) :=
  readFrom none raw

/-- The value of an attribute: white space becomes spaces, a line end of two characters one
space. -/
def attributeValue : List Datum → List Char
  | [] => []
  | .referenced c :: rest => c :: attributeValue rest
  | .written c :: rest =>
    if c = '\r' ∧ rest.head? = some (.written '\n') then attributeValue rest
    else if c = '\r' ∨ c = '\n' ∨ c = '\t' then ' ' :: attributeValue rest
    else c :: attributeValue rest

/-- A written character added to a text (in reverse): a carriage return, alone or with a newline
after it, becomes a newline as soon as the next character, or the end, shows which. -/
def pushWritten (text : List Char) (c : Char) (atEnd : Bool) : List Char :=
  match text with
  | '\r' :: text =>
    if atEnd && c == '\r' then '\n' :: '\n' :: text
    else if c = '\n' then '\n' :: text
    else c :: '\n' :: text
  | text => if atEnd && c == '\r' then '\n' :: text else c :: text

/-- The text of an element (in reverse), with `text` already read. The written character right
after a reference is taken as it is, like the reference. -/
def textFrom (text : List Char) (afterReference : Bool) : List Datum → List Char
  | [] => text
  | .referenced c :: rest => textFrom (c :: text) true rest
  | .written c :: rest =>
    if afterReference then textFrom (c :: text) false rest
    else textFrom (pushWritten text c rest.isEmpty) false rest

/-- The text of an element: line ends become newlines. -/
def textValue (data : List Datum) : List Char :=
  (textFrom [] false data).reverse

end Datum

end LocaleKeys.Markup
