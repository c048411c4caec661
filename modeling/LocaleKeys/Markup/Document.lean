import LocaleKeys.Markup.Namespace
import LocaleKeys.Markup.Piece
import LocaleKeys.Text.Word

/-!
# Markup documents

A document is one element, with comments, processing instructions and white space around it. The
tree of the element is built from the pieces of the document, with the open elements on a stack.
Text and character data next to each other form one text node, which a comment, a processing
instruction or a tag ends. A document type declaration is not accepted.
-/

namespace LocaleKeys.Markup

/-- A part of a document. -/
inductive Node where
  /-- An element with the last part of its name, its attributes and its content. -/
  | element (name : List Char) (attributes : List Attribute) (children : List Node)
  /-- Text. -/
  | text (value : List Char)
  /-- A comment or a processing instruction. -/
  | remark

/-- An element that is still open. -/
structure OpenElement where
  name : QualifiedName
  attributes : List Attribute
  /-- The namespaces declared for the content. -/
  scope : Scope
  /-- The content so far, the last part first. -/
  children : List Node

namespace OpenElement

/-- The element with one more part. -/
def add (e : OpenElement) (node : Node) : OpenElement :=
  { e with children := node :: e.children }

/-- The element with more text, which continues the last part if that is text. -/
def addText (e : OpenElement) (value : List Char) : OpenElement :=
  match e.children with
  | .text before :: children => { e with children := .text (before ++ value) :: children }
  | children => { e with children := .text value :: children }

/-- The element, closed. -/
def close (e : OpenElement) : Node :=
  .element e.name.name e.attributes e.children.reverse

end OpenElement

/-- A document that has been read up to some place. -/
structure Reading where
  /-- The open elements, the innermost first. -/
  opened : List OpenElement
  /-- The element of the document, once it is closed. -/
  root? : Option Node

namespace Reading

/-- No part of the document has been read. -/
def start : Reading := ⟨[], none⟩

/-- The element open around the place that is read, if there is one. -/
def scope (reading : Reading) : Scope :=
  (reading.opened.head?.map (·.scope)).getD []

/-- One more part of the innermost open element. Outside every element there may be one element
and any number of remarks. -/
def add? (reading : Reading) (node : Node) : Option Reading :=
  match reading.opened, node with
  | e :: outer, _ => some { reading with opened := e.add node :: outer }
  | [], .remark => some reading
  | [], _ => if reading.root?.isNone then some { reading with root? := some node } else none

/-- More text in the innermost open element. -/
def addText? (reading : Reading) (value : List Char) : Option Reading :=
  match reading.opened with
  | e :: outer => some { reading with opened := e.addText value :: outer }
  | [] => none

/-- The text of a comment: two hyphens neither stand in it nor arise at its end. -/
def isComment (raw : List Char) : Bool :=
  raw.all isAllowed && !Text.containsWord ['-', '-'] raw && raw.getLast? != some '-'

/-- The text of a processing instruction: it begins with a name, which is not that of the
declaration of the document. -/
def isInstruction (raw : List Char) : Bool :=
  raw.all isAllowed && raw.head?.any isNameStart && (Text.afterWord? "xml ".toList raw).isNone

/-- A tag that opens an element. -/
def openTag? (reading : Reading) (tag : Tag) : Option Reading := do
  let attributes ← tag.attributes.mapM fun attr =>
    (Datum.read? attr.value).map fun data => { attr with value := Datum.attributeValue data }
  let (attributes, scope) ← resolve? reading.scope tag.name attributes
  let e : OpenElement := ⟨tag.name, attributes, scope, []⟩
  if tag.closesItself then reading.add? e.close
  else if reading.opened.isEmpty && reading.root?.isSome then none
  else some { reading with opened := e :: reading.opened }

/-- A tag that closes the innermost open element. -/
def closeTag? (reading : Reading) (name : QualifiedName) : Option Reading :=
  match reading.opened with
  | [] => none
  | e :: outer => if e.name = name then add? { reading with opened := outer } e.close else none

/-- The reading after one more piece of the document. -/
def next? (reading : Reading) : Piece → Option Reading
  | .text raw =>
    if reading.opened.isEmpty then if raw.all isSpace then some reading else none
    else if raw.all isAllowed && !Text.containsWord [']', ']', '>'] raw then
      (Datum.read? raw).bind fun data => reading.addText? (Datum.textValue data)
    else none
  | .data raw =>
    if raw.all isAllowed then reading.addText? (Datum.textValue (raw.map .written)) else none
  | .comment raw => if isComment raw then reading.add? .remark else none
  | .instruction raw => if isInstruction raw then reading.add? .remark else none
  | .opening raw => (Tag.ofRaw? raw).bind reading.openTag?
  | .closing raw => (closingName? raw).bind reading.closeTag?

/-- The element of the document, if the reading has come to its end. -/
def finish? (reading : Reading) : Option Node :=
  if reading.opened.isEmpty then reading.root? else none

end Reading

/-- The text without a byte order mark. -/
def dropMark (text : List Char) : List Char :=
  match text with
  | '\uFEFF' :: rest => rest
  | text => text

/-- What follows white space, which may be missing before the end of a declaration. -/
def skipGap? (text : List Char) : Option (List Char) :=
  if text.head?.all isSpace || (Text.afterWord? "?>".toList text).isSome then
    some (skipSpaces text)
  else none

/-- What follows an attribute of a declaration, if the text starts with the given word. The outer
option tells whether the attribute can be read, the inner one whether there is one. -/
def dropAttribute? (word text : List Char) : Option (Option (List Char)) :=
  if (Text.afterWord? word text).isSome then (readAttribute? text).map (some ·.2) else some none

/-- What follows the declaration of a document, if the document has one. It names a version and
may name an encoding and whether the document stands alone. -/
def dropDeclaration? (text : List Char) : Option (List Char) :=
  match Text.afterWord? "<?xml ".toList text with
  | none => some text
  | some rest => do
    let rest ← (← dropAttribute? "version".toList (skipSpaces rest))
    let rest ← skipGap? rest
    let rest ←
      match ← dropAttribute? "encoding".toList rest with
      | some rest => skipGap? rest
      | none => some rest
    let rest := (← dropAttribute? "standalone".toList rest).getD rest
    Text.afterWord? "?>".toList (skipSpaces rest)

/-- The element of a document; there is none if the document is not well-formed. -/
def parse? (document : List Char) : Option Node :=
  (dropDeclaration? (dropMark document)).bind fun text =>
    (Piece.cut? text).bind fun pieces =>
      (pieces.foldlM Reading.next? .start).bind Reading.finish?

end LocaleKeys.Markup
