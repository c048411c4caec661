/-!
# Pieces of a markup document

A markup document is cut into tags, comments, sections of character data, processing instructions
and the text between them. The cut is made in one walk over the characters: a tag ends at the
first `>` outside quotes, each other piece at its own closing mark. What stands inside a piece is
looked at later.
-/

namespace LocaleKeys.Markup

/-- A piece of a document, with the text between its marks. -/
inductive Piece where
  /-- Text up to the next mark. -/
  | text (raw : List Char)
  /-- A tag that opens an element: `<raw>`. -/
  | opening (raw : List Char)
  /-- A tag that closes an element: `</raw>`. -/
  | closing (raw : List Char)
  /-- A comment: `<!--raw-->`. -/
  | comment (raw : List Char)
  /-- A section of character data: `<![CDATA[raw]]>`. -/
  | data (raw : List Char)
  /-- A processing instruction: `<?raw?>`. -/
  | instruction (raw : List Char)
deriving DecidableEq

/-- Where in a document the next character stands. -/
inductive Piece.Place where
  | text
  /-- Right after `<`. -/
  | mark
  /-- After `<!`. -/
  | exclamation
  /-- In a tag that opens an element, inside the quotes given, if any. -/
  | opening (quote : Option Char)
  | closing
  | comment
  | data
  | instruction
deriving DecidableEq

namespace Piece

/-- A piece of text in front of other pieces; an empty one is left out. -/
def consText (raw : List Char) (pieces : List Piece) : List Piece :=
  if raw.isEmpty then pieces else .text raw :: pieces

/-- The pieces of a document, from a place in it where `read` (in reverse) is the text of the
piece so far. There are none if the document ends inside a mark. -/
def cutFrom (place : Place) (read : List Char) : List Char → Option (List Piece)
  | [] => if place = .text then some (consText read.reverse []) else none
  | c :: rest =>
    match place with
    | .text =>
      if c = '<' then (cutFrom .mark [] rest).map (consText read.reverse)
      else cutFrom .text (c :: read) rest
    | .mark =>
      if c = '!' then cutFrom .exclamation [] rest
      else if c = '?' then cutFrom .instruction [] rest
      else if c = '/' then cutFrom .closing [] rest
      else cutFrom (.opening none) [c] rest
    | .exclamation =>
      if c :: read = ['-', '-'] then cutFrom .comment [] rest
      else if c :: read = ['[', 'A', 'T', 'A', 'D', 'C', '['] then cutFrom .data [] rest
      else cutFrom .exclamation (c :: read) rest
    | .opening none =>
      if c = '>' then (cutFrom .text [] rest).map (.opening read.reverse :: ·)
      else if c = '"' ∨ c = '\'' then cutFrom (.opening (some c)) (c :: read) rest
      else cutFrom (.opening none) (c :: read) rest
    | .opening (some quote) =>
      if c = quote then cutFrom (.opening none) (c :: read) rest
      else cutFrom (.opening (some quote)) (c :: read) rest
    | .closing =>
      if c = '>' then (cutFrom .text [] rest).map (.closing read.reverse :: ·)
      else cutFrom .closing (c :: read) rest
    | .comment =>
      match c, read with
      | '>', '-' :: '-' :: read => (cutFrom .text [] rest).map (.comment read.reverse :: ·)
      | _, _ => cutFrom .comment (c :: read) rest
    | .data =>
      match c, read with
      | '>', ']' :: ']' :: read => (cutFrom .text [] rest).map (.data read.reverse :: ·)
      | _, _ => cutFrom .data (c :: read) rest
    | .instruction =>
      match c, read with
      | '>', '?' :: read => (cutFrom .text [] rest).map (.instruction read.reverse :: ·)
      | _, _ => cutFrom .instruction (c :: read) rest

/-- The pieces of a document. -/
def cut? (document : List Char) : Option (List Piece) :=
  cutFrom .text [] document

end Piece

end LocaleKeys.Markup
