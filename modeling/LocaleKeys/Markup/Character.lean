import LocaleKeys.Text.Ranges

/-!
# Characters of markup

The character classes of XML: characters that may stand in a document at all, white space, and
the characters of names.
-/

namespace LocaleKeys.Markup

/-- White space between the parts of a tag and around the document's element. -/
def isSpace (c : Char) : Bool :=
  c == ' ' || c == '\t' || c == '\n' || c == '\r'

/-- A character that may stand in a document. -/
def isAllowed (c : Char) : Bool :=
  isSpace c || (0x20 ≤ c.toNat && c.toNat != 0xFFFE && c.toNat != 0xFFFF)

/-- The characters beyond ASCII that may start a name. -/
def nameStartRanges : Text.Ranges :=
  [(0xC0, 0xD6), (0xD8, 0xF6), (0xF8, 0x2FF), (0x370, 0x37D), (0x37F, 0x1FFF), (0x200C, 0x200D),
    (0x2070, 0x218F), (0x2C00, 0x2FEF), (0x3001, 0xD7FF), (0xF900, 0xFDCF), (0xFDF0, 0xFFFD),
    (0x10000, 0xEFFFF)]

/-- The characters beyond ASCII that may stand in a name but not start it. -/
def nameExtraRanges : Text.Ranges :=
  [(0xB7, 0xB7), (0x300, 0x36F), (0x203F, 0x2040)]

/-- A character that may start a name. -/
def isNameStart (c : Char) : Bool :=
  c.isAlpha || c == ':' || c == '_' || nameStartRanges.contains c

/-- A character that may stand in a name. -/
def isNameChar (c : Char) : Bool :=
  isNameStart c || c.isDigit || c == '-' || c == '.' || nameExtraRanges.contains c

end LocaleKeys.Markup
