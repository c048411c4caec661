import LocaleKeys.Text.CodeUnit

/-!
# JSON tokens

A JSON text is cut into punctuation, words and strings, one character at a time. Words are the
names of the three constants and numbers; they end before white space, punctuation or a string.
-/

namespace LocaleKeys.Json

/-- A token of a JSON text. -/
inductive Token where
  | openArray
  | closeArray
  | openObject
  | closeObject
  | comma
  | colon
  | null
  | bool (value : Bool)
  | number (literal : List Char)
  | string (units : List Nat)
deriving DecidableEq

namespace Token

/-- White space between tokens. -/
def isSpace (c : Char) : Bool :=
  c == ' ' || c == '\t' || c == '\n' || c == '\r'

/-- The token of a punctuation character. -/
def punctuation? (c : Char) : Option Token :=
  if c = '[' then some .openArray
  else if c = ']' then some .closeArray
  else if c = '{' then some .openObject
  else if c = '}' then some .closeObject
  else if c = ',' then some .comma
  else if c = ':' then some .colon
  else none

/-- A character that ends a word. -/
def isDelimiter (c : Char) : Bool :=
  isSpace c || (punctuation? c).isSome || c == '"'

/-- Digits at the start of a text, at least one, and what follows them. -/
def afterDigits? (text : List Char) : Option (List Char) :=
  if text.head?.any Char.isDigit then some (text.dropWhile Char.isDigit) else none

/-- What follows the integer part of a number. It has no needless zero in front. -/
def afterInteger? : List Char → Option (List Char)
  | '0' :: rest => some rest
  | text => afterDigits? text

/-- What follows the fraction of a number, which may be missing. -/
def afterFraction? : List Char → Option (List Char)
  | '.' :: rest => afterDigits? rest
  | text => some text

/-- What follows the exponent of a number, which may be missing. -/
def afterExponent? : List Char → Option (List Char)
  | [] => some []
  | c :: rest =>
    if c = 'e' ∨ c = 'E' then
      match rest with
      | '+' :: rest => afterDigits? rest
      | '-' :: rest => afterDigits? rest
      | rest => afterDigits? rest
    else some (c :: rest)

/-- A text without a sign in front. -/
def dropSign : List Char → List Char
  | '-' :: rest => rest
  | text => text

/-- The word writes a number. -/
def isNumber (word : List Char) : Bool :=
  (((afterInteger? (dropSign word)).bind afterFraction?).bind afterExponent?) == some []

/-- The token of a word. -/
def ofWord? (word : List Char) : Option Token :=
  if word = "null".toList then some .null
  else if word = "true".toList then some (.bool true)
  else if word = "false".toList then some (.bool false)
  else if isNumber word then some (.number word)
  else none

/-- The character that a backslash and a letter stand for in a string. -/
def escaped? (c : Char) : Option Char :=
  if c = '"' ∨ c = '\\' ∨ c = '/' then some c
  else if c = 'b' then some '\x08'
  else if c = 'f' then some '\x0c'
  else if c = 'n' then some '\n'
  else if c = 'r' then some '\r'
  else if c = 't' then some '\t'
  else none

/-- What the next character belongs to. Texts and units read so far are in reverse. -/
inductive Place where
  | between
  | word (read : List Char)
  | string (units : List Nat)
  | escape (units : List Nat)
  /-- The code of an escape, with the digits and the value read so far. -/
  | code (units : List Nat) (digits value : Nat)
deriving DecidableEq

/-- A text read up to some place, with the tokens so far in reverse. -/
structure Reading where
  place : Place
  tokens : List Token
deriving DecidableEq

/-- The reading after a character outside of words and strings. -/
def Reading.begin (tokens : List Token) (c : Char) : Reading :=
  if isSpace c then ⟨.between, tokens⟩
  else
    match punctuation? c with
    | some token => ⟨.between, token :: tokens⟩
    | none => if c = '"' then ⟨.string [], tokens⟩ else ⟨.word [c], tokens⟩

/-- The reading after one more character. -/
def Reading.next? (reading : Reading) (c : Char) : Option Reading :=
  let tokens := reading.tokens
  match reading.place with
  | .between => some (begin tokens c)
  | .word read =>
    if isDelimiter c then (ofWord? read.reverse).map fun token => begin (token :: tokens) c
    else some ⟨.word (c :: read), tokens⟩
  | .string units =>
    if c = '"' then some ⟨.between, .string units.reverse :: tokens⟩
    else if c = '\\' then some ⟨.escape units, tokens⟩
    else if c.toNat < 0x20 then none
    else some ⟨.string (c.toNat :: units), tokens⟩
  | .escape units =>
    if c = 'u' then some ⟨.code units 0 0, tokens⟩
    else (escaped? c).map fun c => ⟨.string (c.toNat :: units), tokens⟩
  | .code units digits value =>
    (Text.hexDigit? c).map fun digit =>
      let value := value * 16 + digit
      if digits = 3 then ⟨.string (value :: units), tokens⟩
      else ⟨.code units (digits + 1) value, tokens⟩

/-- The tokens, if the text may end here. -/
def Reading.finish? (reading : Reading) : Option (List Token) :=
  match reading.place with
  | .between => some reading.tokens.reverse
  | .word read => (ofWord? read.reverse).map fun token => (token :: reading.tokens).reverse
  | _ => none

/-- The tokens of a text. -/
def cut? (text : List Char) : Option (List Token) :=
  (text.foldlM Reading.next? ⟨.between, []⟩).bind Reading.finish?

end Token

end LocaleKeys.Json
