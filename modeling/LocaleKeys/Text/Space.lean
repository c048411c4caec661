/-!
# White space

The characters with the Unicode property `White_Space`, and texts without such characters at
their ends. A text is handled as a list of characters; `trim` takes from both ends and leaves the
inside alone.
-/

namespace LocaleKeys.Text

/-- A character with the Unicode property `White_Space`. -/
def isSpace (c : Char) : Bool :=
  let n := c.toNat
  (9 ≤ n && n ≤ 13) || n == 0x20 || n == 0x85 || n == 0xA0 || n == 0x1680
    || (0x2000 ≤ n && n ≤ 0x200A) || n == 0x2028 || n == 0x2029 || n == 0x202F
    || n == 0x205F || n == 0x3000

/-- A text without the characters of class `p` at its end. -/
def dropEndWhile (p : Char → Bool) (text : List Char) : List Char :=
  (text.reverse.dropWhile p).reverse

/-- A text without white space at its ends. -/
def trim (text : List Char) : List Char :=
  dropEndWhile isSpace (text.dropWhile isSpace)

/-- A text that ends outside the class is left as it is. -/
theorem dropEndWhile_append_singleton {p : Char → Bool} {c : Char} (h : p c = false)
    (text : List Char) : dropEndWhile p (text ++ [c]) = text ++ [c] := by
  simp [dropEndWhile, h]

end LocaleKeys.Text
