import LocaleKeys.Source.Position

/-!
# Byte offsets and the lines they lie in

A match in a text is known by its byte offset. A `LineIndex` holds the byte offset at which each
line starts, and a bisection finds the line of an offset (`LineIndex.position?`). A text can be cut
only between two of its characters (`Text.cutAt?`), so a part of it is an `Option`: there is none
between offsets that lie inside a character, beyond the end or in the wrong order.
-/

namespace LocaleKeys

namespace Text

/-- The number of bytes in which a text is written. -/
def byteSize : List Char → Nat
  | [] => 0
  | c :: rest => c.utf8Size + byteSize rest

/-- The text before a byte offset and the text from it on. -/
def cutAt? : Nat → List Char → Option (List Char × List Char)
  | 0, text => some ([], text)
  | _ + 1, [] => none
  | n + 1, c :: rest =>
    if c.utf8Size ≤ n + 1 then
      (cutAt? (n + 1 - c.utf8Size) rest).map fun (before, rest) => (c :: before, rest)
    else none

/-- The part of a text from one byte offset up to another. -/
def slice? (text : List Char) (start stop : Nat) : Option (List Char) :=
  if start ≤ stop then do
    let (_, rest) ← cutAt? start text
    let (part, _) ← cutAt? (stop - start) rest
    return part
  else none

end Text

/-- The byte offsets at which the lines of a text start. -/
structure LineIndex where
  starts : Array Nat

namespace LineIndex

/-- The offsets behind the newlines of a text that starts at an offset. -/
def startsFrom (offset : Nat) : List Char → List Nat
  | [] => []
  | c :: rest =>
    let following := startsFrom (offset + c.utf8Size) rest
    if c = '\n' then (offset + 1) :: following else following

/-- The first line starts with the text, every other one behind a newline. -/
def ofText (text : List Char) : LineIndex :=
  ⟨(0 :: startsFrom 0 text).toArray⟩

/-- Where a number stands among increasing ones. -/
inductive Place where
  /-- It is the one at the index. -/
  | found (i : Nat)
  /-- It is none of them, and those below the index are the smaller ones. -/
  | missing (i : Nat)

/-- The place of a number among increasing ones, by bisection between two bounds. -/
def search (numbers : Array Nat) (target lo hi : Nat) (bound : hi ≤ numbers.size) : Place :=
  if inside : lo < hi then
    let mid := lo + (hi - lo) / 2
    have below : mid < hi := by omega
    have held : mid < numbers.size := by omega
    match compare numbers[mid] target with
    | .eq => .found mid
    | .lt => search numbers target (mid + 1) hi bound
    | .gt => search numbers target lo mid (Nat.le_of_lt held)
  else .missing lo
termination_by hi - lo

/-- The line, counted from one, that an offset lies in if it has this place among the starts. -/
def Place.line : Place → Nat
  | .found i => i + 1
  | .missing i => i

/-- The line that an offset lies in. -/
def lineOf (index : LineIndex) (offset : Nat) : Nat :=
  (search index.starts offset 0 index.starts.size (Nat.le_refl _)).line

/-- The position at a byte offset of the text. -/
def position? (index : LineIndex) (text : List Char) (offset : Nat) : Option Position :=
  match index.lineOf offset with
  | 0 => none
  | row + 1 => do
    let start ← index.starts[row]?
    let current ← Text.slice? text start offset
    return ⟨row + 1, current.length + 1⟩

/-- The offset at which a line ends that is followed by the line with this start, if any. -/
def stop? (text : List Char) : Option Nat → Option Nat
  | none => some (Text.byteSize text)
  | some 0 => none
  | some (next + 1) => some next

/-- The text of a line, counted from one, without the carriage returns at its end. The text has no
line zero, and what is beyond its last line is empty. -/
def lineText? (index : LineIndex) (text : List Char) (line : Nat) : Option (List Char) :=
  match index.starts[line - 1]? with
  | none => some []
  | some start => do
    let stop ← stop? text index.starts[line]?
    let written ← Text.slice? text start stop
    return Text.dropEndWhile (· == '\r') written

end LineIndex

end LocaleKeys
