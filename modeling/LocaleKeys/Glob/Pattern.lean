/-!
# Glob patterns

A pattern is a text with wildcards: `?` for any character, `*` for any characters, `[...]` and
`[!...]` for a character of a class or outside of it, and `**` for any number of whole path
components. A wildcard may stand for a slash as well. `Pattern.parse` reads a pattern, or says
where and why it is none; `Pattern.accepts` matches it against a whole text.
-/

namespace LocaleKeys.Glob

/-- A member of a character class. -/
inductive ClassMember where
  | single (c : Char)
  | range (first last : Char)
deriving DecidableEq

/-- An element of a pattern. -/
inductive Token where
  /-- The character itself. -/
  | literal (c : Char)
  /-- Any character. -/
  | anyChar
  /-- Any characters. -/
  | anyText
  /-- Nothing, or any characters up to a slash. -/
  | anyComponents
  /-- A character of a class, or, if the class is negated, one outside of it. -/
  | oneOf (negated : Bool) (members : List ClassMember)
deriving DecidableEq

/-- A glob pattern. -/
structure Pattern where
  tokens : List Token
deriving DecidableEq

/-- Why a text is no pattern. -/
inductive PatternError.Cause where
  /-- Three stars in a row. -/
  | wildcards
  /-- Two stars that are not a whole path component. -/
  | recursiveWildcards
  /-- A character class that does not end or is empty. -/
  | invalidRange
deriving DecidableEq

/-- A fault of a pattern at a character, counted from zero. -/
structure PatternError where
  position : Nat
  cause : PatternError.Cause
deriving DecidableEq

/-- The report of a fault of a pattern. -/
def PatternError.message (e : PatternError) : String :=
  let cause :=
    match e.cause with
    | .wildcards => "wildcards are either regular `*` or recursive `**`"
    | .recursiveWildcards => "recursive wildcards must form a single path component"
    | .invalidRange => "invalid range pattern"
  s!"Pattern syntax error near position {e.position}: {cause}"

/-- The members of a character class, from the text between its brackets. -/
def classMembers : List Char → List ClassMember
  | a :: '-' :: b :: rest => .range a b :: classMembers rest
  | c :: rest => .single c :: classMembers rest
  | [] => []

/-- A character class that is still open. -/
structure OpenClass where
  /-- The position of its opening bracket. -/
  position : Nat
  negated : Bool
  /-- The text read so far, in reverse. -/
  text : List Char

/-- The tokens with any components at the end. Two such tokens in a row are one, unless they are
the first tokens of the pattern. -/
def addComponents : List Token → List Token
  | .anyComponents :: token :: tokens => .anyComponents :: token :: tokens
  | tokens => .anyComponents :: tokens

/-- A star may begin a path component after this character. -/
def endsComponent (before : Option Char) : Bool :=
  before.all (· == '/')

/-- The tokens of a pattern, with `tokens` (in reverse) already read. The rest of the pattern
starts at `position`, after the character `before`. -/
def tokensFrom (opened : Option OpenClass) (tokens : List Token) (position : Nat)
    (before : Option Char) : List Char → Except PatternError (List Token)
  | [] =>
    match opened with
    | none => .ok tokens.reverse
    | some opened => .error ⟨opened.position, .invalidRange⟩
  | c :: rest =>
    match opened with
    | some opened =>
      if c = ']' ∧ opened.text ≠ [] then
        let token := Token.oneOf opened.negated (classMembers opened.text.reverse)
        tokensFrom none (token :: tokens) (position + 1) (some c) rest
      else
        let opened := { opened with text := c :: opened.text }
        tokensFrom (some opened) tokens (position + 1) (some c) rest
    | none =>
      match c, rest with
      | '?', rest => tokensFrom none (.anyChar :: tokens) (position + 1) (some c) rest
      | '*', '*' :: '*' :: _ => .error ⟨position + 2, .wildcards⟩
      | '*', '*' :: rest =>
        if endsComponent before then
          match rest with
          | [] => .ok (addComponents tokens).reverse
          | '/' :: rest =>
            tokensFrom none (addComponents tokens) (position + 3) (some '/') rest
          | _ => .error ⟨position + 2, .recursiveWildcards⟩
        else .error ⟨position - 1, .recursiveWildcards⟩
      | '*', rest => tokensFrom none (.anyText :: tokens) (position + 1) (some c) rest
      | '[', '!' :: rest =>
        tokensFrom (some ⟨position, true, []⟩) tokens (position + 2) (some c) rest
      | '[', rest => tokensFrom (some ⟨position, false, []⟩) tokens (position + 1) (some c) rest
      | c, rest => tokensFrom none (.literal c :: tokens) (position + 1) (some c) rest

namespace Pattern

/-- The pattern that a text writes. -/
def parse (text : List Char) : Except PatternError Pattern :=
  (tokensFrom none [] 0 none text).map Pattern.mk

end Pattern

/-! ## Matching -/

/-- The character belongs to the class. -/
def ClassMember.contains (c : Char) : ClassMember → Bool
  | .single d => c == d
  | .range first last => first ≤ c && c ≤ last

/-- The character is one that the token stands for. -/
def Token.acceptsChar (token : Token) (c : Char) : Bool :=
  match token with
  | .literal d => c == d
  | .anyChar => true
  | .oneOf negated members => members.any (ClassMember.contains c) != negated
  | .anyText | .anyComponents => false

/-- How an attempt to match ends. -/
inductive Outcome where
  | accepted
  /-- This attempt fails. -/
  | refused
  /-- The text is too short, so that any attempt on less of it fails as well. -/
  | exhausted
deriving DecidableEq

/-- The first outcome, unless it leaves a further attempt. -/
def Outcome.orElse (first : Outcome) (second : Unit → Outcome) : Outcome :=
  match first with
  | .refused => second ()
  | decided => decided

/-- Attempts at what is left of a text after each character that `stops` admits, and at its
end. -/
def attempts (stops : Char → Bool) (attempt : List Char → Outcome) : List Char → Outcome
  | [] => attempt []
  | c :: rest =>
    if stops c then (attempt rest).orElse fun _ => attempts stops attempt rest
    else attempts stops attempt rest

/-- The tokens match the whole text. -/
def accepts : List Token → List Char → Outcome
  | [], [] => .accepted
  | [], _ :: _ => .refused
  | .anyText :: tokens, text =>
    (accepts tokens text).orElse fun _ => attempts (fun _ => true) (accepts tokens) text
  | .anyComponents :: tokens, text =>
    (accepts tokens text).orElse fun _ => attempts (· == '/') (accepts tokens) text
  | _ :: _, [] => .exhausted
  | token :: tokens, c :: text => if token.acceptsChar c then accepts tokens text else .refused

namespace Pattern

/-- The pattern matches the whole text. -/
def accepts (pattern : Pattern) (text : List Char) : Bool :=
  Glob.accepts pattern.tokens text = .accepted

end Pattern

/-- The text has a wildcard of a kind that makes it a pattern rather than a plain path. -/
def isPatternText (text : List Char) : Bool :=
  text.contains '*' || text.contains '?'

end LocaleKeys.Glob
