/-!
# The argument list of a call

Two passes read the text that follows the opening parenthesis of a call. The first, a `Walk`, goes
to the closing parenthesis that matches, past nested parentheses and past everything in literals
and comments. The second, a `Reader`, goes over the argument list again and takes the text of the
string literals of the first argument, so segments joined by `+` come out as one text.

Both go one character at a time, and a character may take some of the following ones along: a
backslash in a literal takes the next one, a slash that opens a comment takes the comment, and in
the second pass an apostrophe takes the character literal that it opens. The number of characters
taken along that are still to come is `ahead`.
-/

namespace LocaleKeys

/-- The number of characters up to the end of a line, its newline included. -/
def lineCommentLength : List Char → Nat
  | [] => 0
  | c :: rest => if c = '\n' then 1 else lineCommentLength rest + 1

/-- The number of characters up to the end of a comment that a star and a slash close, both
included, where `previous` is the character before the text. -/
def blockCommentLength (previous : Char) : List Char → Nat
  | [] => 0
  | c :: rest => if previous = '*' ∧ c = '/' then 1 else blockCommentLength c rest + 1

/-- The number of characters behind a slash that belong to a comment which it opens. A slash alone
opens none. -/
def commentLength : List Char → Nat
  | '/' :: rest => lineCommentLength rest + 1
  | '*' :: rest => blockCommentLength '\x00' rest + 1
  | _ => 0

/-- The number of characters behind an apostrophe that belong to the character literal which it
opens, the closing apostrophe included. -/
def characterLength : List Char → Nat
  | [] => 0
  | '\\' :: _ :: rest => characterLength rest + 2
  | c :: rest => if c = '\'' then 1 else characterLength rest + 1

/-- What the first pass tells apart; it takes comments along with code. -/
inductive Lexeme where
  | code
  | string
  | character
deriving DecidableEq

/-- The state of the first pass. -/
structure Walk where
  lexeme : Lexeme
  /-- The number of nested parentheses that are open. -/
  depth : Nat
  ahead : Nat
deriving DecidableEq

namespace Walk

/-- The first pass right behind the opening parenthesis. -/
def start : Walk := ⟨.code, 0, 0⟩

/-- The character is the closing parenthesis that the walk goes to. -/
def closes (walk : Walk) (c : Char) : Bool :=
  walk.ahead == 0 && walk.lexeme == .code && walk.depth == 0 && c == ')'

/-- The walk after a character of code, which `rest` follows. -/
def stepCode (walk : Walk) (c : Char) (rest : List Char) : Walk :=
  if c = '(' then { walk with depth := walk.depth + 1 }
  else if c = ')' then { walk with depth := walk.depth - 1 }
  else if c = '"' then { walk with lexeme := .string }
  else if c = '\'' then { walk with lexeme := .character }
  else if c = '/' then { walk with ahead := commentLength rest }
  else walk

/-- The walk after a character of a literal between the given quotes. -/
def stepLiteral (walk : Walk) (quote c : Char) : Walk :=
  if c = '\\' then { walk with ahead := 1 }
  else if c = quote then { walk with lexeme := .code }
  else walk

/-- The walk after a character, which `rest` follows. -/
def step (walk : Walk) (c : Char) (rest : List Char) : Walk :=
  match walk.ahead with
  | ahead + 1 => { walk with ahead }
  | 0 =>
    match walk.lexeme with
    | .code => walk.stepCode c rest
    | .string => walk.stepLiteral '"' c
    | .character => walk.stepLiteral '\'' c

end Walk

/-- The text before the parenthesis that a walk goes to, with `before` (in reverse) already
read. -/
def argumentsFrom (walk : Walk) (before : List Char) : List Char → Option (List Char)
  | [] => none
  | c :: rest =>
    if walk.closes c then some before.reverse
    else argumentsFrom (walk.step c rest) (c :: before) rest

/-- The text between an opening parenthesis, which `text` follows, and the closing parenthesis
that matches it; there is none if the text ends first. -/
def argumentList? (text : List Char) : Option (List Char) :=
  argumentsFrom .start [] text

/-- What a pass takes a character for. -/
inductive Kind where
  | code
  | string
  | character
  | comment
deriving DecidableEq

/-- The state of the second pass. -/
structure Reader where
  inQuotes : Bool
  ahead : Nat
  /-- What the characters ahead belong to. -/
  passing : Kind
deriving DecidableEq

namespace Reader

/-- The second pass at the start of an argument list. -/
def start : Reader := ⟨false, 0, .code⟩

/-- The character is a comma that ends the first argument. -/
def stops (reader : Reader) (c : Char) : Bool :=
  reader.ahead == 0 && !reader.inQuotes && c == ','

/-- What a character between quotes adds to the literal text: a backslash adds the character that
it takes along, alone if that is a quote and else with the backslash in front. -/
def quotedText (c : Char) (rest : List Char) : List Char :=
  if c = '\\' then
    match rest with
    | [] => ['\\']
    | next :: _ => if next = '"' then ['"'] else ['\\', next]
  else if c = '"' then []
  else [c]

/-- What a character, which `rest` follows, adds to the literal text. -/
def added (reader : Reader) (c : Char) (rest : List Char) : List Char :=
  if reader.ahead = 0 ∧ reader.inQuotes then quotedText c rest else []

/-- The second pass after a character, which `rest` follows. -/
def step (reader : Reader) (c : Char) (rest : List Char) : Reader :=
  match reader.ahead with
  | ahead + 1 => { reader with ahead }
  | 0 =>
    if reader.inQuotes then
      if c = '\\' then ⟨true, 1, .string⟩
      else if c = '"' then ⟨false, 0, .code⟩
      else reader
    else if c = '"' then ⟨true, 0, .string⟩
    else if c = '\'' then ⟨false, characterLength rest, .character⟩
    else if c = '/' then ⟨false, commentLength rest, .comment⟩
    else reader

end Reader

/-- The text of the string literals before the first comma in code. -/
def literalFrom (reader : Reader) : List Char → List Char
  | [] => []
  | c :: rest =>
    if reader.stops c then [] else reader.added c rest ++ literalFrom (reader.step c rest) rest

/-- The text of the string literals of the first argument of an argument list. -/
def firstLiteral (arguments : List Char) : List Char :=
  literalFrom .start arguments

end LocaleKeys
