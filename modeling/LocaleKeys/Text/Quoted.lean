import LocaleKeys.Text.Unprintable

/-!
# Quoted texts

A text in double quotes, as messages show it: double quotes and backslashes get a backslash in
front, a few control characters have a letter, and other characters that are not shown as they are
appear as the hexadecimal digits of their code points.
-/

namespace LocaleKeys.Text

/-- A character inside of a quoted text. -/
def quotedChar (c : Char) : List Char :=
  if c = '\x00' then ['\\', '0']
  else if c = '\t' then ['\\', 't']
  else if c = '\r' then ['\\', 'r']
  else if c = '\n' then ['\\', 'n']
  else if c = '"' ∨ c = '\\' then ['\\', c]
  else if isUnprintable c then
    ['\\', 'u', '\x7b'] ++ Nat.toDigits 16 c.toNat ++ ['\x7d']
  else [c]

/-- A text in quotes. -/
def quoted (text : List Char) : List Char :=
  '"' :: text.flatMap quotedChar ++ ['"']

end LocaleKeys.Text
