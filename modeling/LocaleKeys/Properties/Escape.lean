import LocaleKeys.Text.CodeUnit

/-!
# Escapes in resource files

A backslash and the letter `t`, `n`, `r` or `f` stand for a control character, a backslash, `u`
and four hexadecimal digits for a UTF-16 code unit, and a backslash before any other character
for that character. A character outside the Basic Multilingual Plane is written as the escapes of
its two surrogates, one right after the other.
-/

namespace LocaleKeys.Properties

open Text (hexDigit? isHighSurrogate isLowSurrogate ofSurrogates)

/-- The code unit of four digits; a plus sign may take the place of the first. -/
def codeUnit? (a b c d : Char) : Option Nat := do
  let a ← if a = '+' then some 0 else hexDigit? a
  let b ← hexDigit? b
  let c ← hexDigit? c
  let d ← hexDigit? d
  return ((a * 16 + b) * 16 + c) * 16 + d

/-- The character that a backslash and the given character stand for, the letter `u` apart. -/
def ofLetter (c : Char) : Char :=
  if c = 't' then '\t'
  else if c = 'n' then '\n'
  else if c = 'r' then '\r'
  else if c = 'f' then '\x0c'
  else c

/-- The text that a raw text with escapes stands for; there is none if the escape of a code unit
is malformed or a surrogate has no partner. -/
def unescape? : List Char → Option (List Char)
  | [] => some []
  | '\\' :: 'u' :: a :: b :: c :: d :: rest =>
    match codeUnit? a b c d with
    | none => none
    | some unit =>
      if isHighSurrogate unit then
        match rest with
        | '\\' :: 'u' :: e :: f :: g :: h :: rest =>
          match codeUnit? e f g h with
          | none => none
          | some low =>
            if isLowSurrogate low then (unescape? rest).map (ofSurrogates unit low :: ·) else none
        | _ => none
      else if isLowSurrogate unit then none
      else (unescape? rest).map (Char.ofNat unit :: ·)
  | '\\' :: 'u' :: _ => none
  | ['\\'] => some []
  | '\\' :: c :: rest => (unescape? rest).map (ofLetter c :: ·)
  | c :: rest => (unescape? rest).map (c :: ·)

end LocaleKeys.Properties
