import LocaleKeys.Text.WidthRanges

/-!
# Display width

The number of columns that a text takes on a terminal. Most characters take one column, others
none or two. Some sequences take less than their characters do: emoji that selectors, skin tones,
tags or joiners make one, and ligatures of a few scripts. Whether a character belongs to such a
sequence shows in what comes behind it. So a text is measured from its end: a `Tail` has the
columns of what has been read and the sign that stands first in it, and `Tail.extend` puts one more
character in front. Main statement: a text of plain characters takes a column for each of them.
-/

namespace LocaleKeys.Text

/-- The characters up to here take a column each, and make no ligatures. -/
def lastPlain : Nat := 0xA0

/-- The columns of a character by itself. -/
def charWidth (c : Char) : Nat :=
  if c.toNat ≤ lastPlain then 1
  else if c.toNat = 0x17D8 then 3
  else if zeroWidthRanges.contains c then 0
  else if wideRanges.contains c then 2
  else 1

/-! ## Classes of characters -/

/-- The joiner of sequences and ligatures. -/
def zeroWidthJoiner : Char := '\u200D'

/-- A form of a character, which a selector behind it asks for. -/
inductive Form where
  | emoji
  | text
  | wide
deriving DecidableEq

/-- The form that a selector asks for. -/
def Form.ofSelector? (c : Char) : Option Form :=
  match c.toNat with
  | 0xFE0F => some .emoji
  | 0xFE0E => some .text
  | 0xFE01 => some .wide
  | _ => none

/-- The character has the form. An enclosed ideograph is as wide in its text form as it is as an
emoji, so that form of it does not count. -/
def Form.isOf (c : Char) : Form → Bool
  | .emoji => emojiFormRanges.contains c
  | .text => emojiFormRanges.contains c && emojiRanges.contains c
      && !Ranges.contains [(0x1F200, 0x1F2FF)] c
  | .wide => Ranges.contains [(0x2018, 0x2019), (0x201C, 0x201D)] c

/-- A skin tone. -/
def isSkinTone (c : Char) : Bool :=
  Ranges.contains [(0x1F3FB, 0x1F3FF)] c

/-- A letter of a flag; two of them make one. -/
def isFlagLetter (c : Char) : Bool :=
  Ranges.contains [(0x1F1E6, 0x1F1FF)] c

/-- A letter that is a tag behind a flag. -/
def isTagLetter (c : Char) : Bool :=
  Ranges.contains [(0xE0061, 0xE007A)] c

/-- A digit that is a tag behind a flag. -/
def isTagDigit (c : Char) : Bool :=
  Ranges.contains [(0xE0030, 0xE0039)] c

/-- The Arabic letters of the shape of lam. -/
def isLam (c : Char) : Bool :=
  Ranges.contains [(0x644, 0x644), (0x6B5, 0x6B8), (0x76A, 0x76A), (0x8A6, 0x8A6),
    (0x8C7, 0x8C7)] c

/-- The Arabic letters of the shape of alef. -/
def isAlef (c : Char) : Bool :=
  Ranges.contains [(0x622, 0x623), (0x625, 0x625), (0x627, 0x627), (0x671, 0x673),
    (0x675, 0x675), (0x773, 0x774), (0x870, 0x882)] c

/-- The Khmer letters that take a subscript form. -/
def isKhmerLetter (c : Char) : Bool :=
  Ranges.contains [(0x1780, 0x1782), (0x1784, 0x1787), (0x1789, 0x178C), (0x178E, 0x1793),
    (0x1795, 0x1798), (0x179B, 0x179D), (0x17A0, 0x17A0), (0x17A2, 0x17A2), (0x17A7, 0x17A7),
    (0x17AB, 0x17AC), (0x17AF, 0x17AF)] c

/-- The Tifinagh consonants. -/
def isTifinagh (c : Char) : Bool :=
  Ranges.contains [(0x2D31, 0x2D65), (0x2D6F, 0x2D6F)] c

/-- The Lisu tone letters that stand in front of another one in the same column. -/
def isFirstLisuTone (c : Char) : Bool :=
  Ranges.contains [(0xA4F8, 0xA4FB)] c

/-- The Lisu tone letters that stand behind another one in the same column. -/
def isSecondLisuTone (c : Char) : Bool :=
  Ranges.contains [(0xA4FC, 0xA4FD)] c

/-- A character without a column behind which an Arabic letter still joins the one in front. -/
def isJoiningTransparent (c : Char) : Bool :=
  charWidth c == 0 && !opaqueRanges.contains c

/-- A mark that is ignored inside of the ligatures of other scripts. -/
def isLigatureTransparent (c : Char) : Bool :=
  Ranges.contains [(0x34F, 0x34F), (0x17B4, 0x17B5), (0x180B, 0x180D), (0x180F, 0x180F),
    (0x200D, 0x200D), (0xFE00, 0xFE0F), (0xE0100, 0xE01EF)] c

/-! ## The end of a text -/

/-- The letters that end a ligature. -/
inductive LigatureEnd where
  /-- The Hebrew lamed, which a joiner and an alef precede. -/
  | lamed
  /-- The Buginese ya, which a joiner and a vowel precede. -/
  | ya
  /-- The same with the joiner and the vowel, which an a precedes. -/
  | vowelAndYa
  | tifinagh
  /-- A Tifinagh consonant with the mark in front that joins it to another one. -/
  | joinedTifinagh
  | lisuTone
  /-- The letter of Old Turkic that a joiner and another letter precede. -/
  | orkhonI
  /-- A Khmer letter, which is a subscript if a mark precedes it. -/
  | khmerLetter
deriving DecidableEq

/-- What stands first in the end of a text, so far as it matters for the character in front. -/
inductive Sign where
  | plain
  | lineFeed
  | emoji
  | skinTone
  /-- Letters of flags, this many. -/
  | flagLetters (count : Nat)
  /-- A joiner and an emoji. -/
  | joinedEmoji
  /-- The mark of a keycap in front of a joiner and an emoji. -/
  | joinedKeycap
  /-- Letters of flags in front of a joiner and an emoji. -/
  | joinedFlagLetters (count : Nat)
  /-- Tags and the end of tags, in front of a joiner and an emoji. -/
  | joinedTags (letters digits : Nat)
  | alef
  /-- The end of a ligature, perhaps with a joiner in front. -/
  | ligature (last : LigatureEnd) (joined : Bool)
  /-- The first vowel of the Kirat Rai script that others are made of. -/
  | vowelE
  /-- The second one, by itself or made of two of the first one. -/
  | vowelAi
deriving DecidableEq

namespace Sign

/-- The sign that a character by itself makes. -/
def of (c : Char) : Sign :=
  if isAlef c then .alef
  else if isTifinagh c then .ligature .tifinagh false
  else if isSecondLisuTone c then .ligature .lisuTone false
  else if isKhmerLetter c then .ligature .khmerLetter false
  else if isFlagLetter c then .flagLetters 1
  else if isSkinTone c then .skinTone
  else if emojiRanges.contains c then .emoji
  else
    match c.toNat with
    | 0x5DC => .ligature .lamed false
    | 0x1A10 => .ligature .ya false
    | 0x10C03 => .ligature .orkhonI false
    | 0x16D67 => .vowelE
    | 0x16D68 => .vowelAi
    | _ => .plain

/-- The sign ends a ligature, which selectors do not break. -/
def isLigatureEnd : Sign → Bool
  | .alef | .ligature .. => true
  | _ => false

/-- The sign joins an emoji to what is in front, also to a character in its emoji form. -/
def isJoined : Sign → Bool
  | .joinedEmoji | .joinedKeycap => true
  | _ => false

end Sign

/-- The end of a text. -/
structure Tail where
  columns : Nat
  sign : Sign
  /-- The forms that selectors ask for, of the character in front. -/
  forms : List Form
deriving DecidableEq

namespace Tail

/-- Nothing of the text. -/
def empty : Tail := ⟨0, .plain, []⟩

/-- The tail with a sign in front that adds columns. -/
def add (tail : Tail) (columns : Nat) (sign : Sign) : Tail :=
  ⟨tail.columns + columns, sign, []⟩

/-- The tail with a sign in front that takes a column away. -/
def shrink (tail : Tail) (sign : Sign) : Tail :=
  ⟨tail.columns - 1, sign, []⟩

/-- The tail with a selector in front. -/
def ask (tail : Tail) (form : Form) : Tail :=
  if tail.sign.isLigatureEnd then { tail with forms := form :: tail.forms }
  else if tail.sign.isJoined ∧ form = .emoji then { tail with forms := [form] }
  else { tail with sign := .plain, forms := [form] }

/-- The tail for a character that does not have the form. -/
def refuse (tail : Tail) (form : Form) : Tail :=
  if form ∉ tail.forms then tail
  else if tail.sign.isLigatureEnd then { tail with forms := tail.forms.filter (· ≠ form) }
  else { tail with sign := .plain, forms := [] }

/-- The tail with a character in front that makes an emoji, or more of one, with its sign. -/
def joinEmoji? (tail : Tail) (c : Char) : Option Tail :=
  match tail.sign with
  | .emoji => if c = zeroWidthJoiner then some (tail.add 0 .joinedEmoji) else none
  | .skinTone =>
    if modifierBaseRanges.contains c then some (tail.add 0 .emoji)
    else if c = zeroWidthJoiner then some (tail.add 0 .joinedEmoji)
    else none
  | .flagLetters count =>
    if isFlagLetter c then some (tail.add 1 (.flagLetters (count + 1)))
    else if c = zeroWidthJoiner ∧ 2 ≤ count then some (tail.add 0 .joinedEmoji)
    else none
  | .joinedEmoji =>
    if c.toNat = 0x20E3 then some (tail.add 0 .joinedKeycap)
    else if isFlagLetter c then some (tail.add 1 (.joinedFlagLetters 1))
    else if isSkinTone c then some (tail.add 0 .skinTone)
    else if c.toNat = 0xE007F then some (tail.add 0 (.joinedTags 0 0))
    else if emojiRanges.contains c then some (tail.add 0 .emoji)
    else none
  | .joinedFlagLetters count =>
    if isFlagLetter c then
      -- the second letter of a flag hides it in the joined emoji, a further one shows it again
      if count % 2 = 1 then some (tail.shrink (.joinedFlagLetters (count + 1)))
      else some (tail.add 3 (.joinedFlagLetters (count + 1)))
    else if c = zeroWidthJoiner ∧ 2 ≤ count then some (tail.add 0 .joinedEmoji)
    else none
  | .joinedTags letters digits =>
    if isTagLetter c ∧ digits = 0 ∧ letters < 6 then
      some (tail.add 0 (.joinedTags (letters + 1) 0))
    else if isTagDigit c ∧ letters < 5 ∧ digits < 3 then
      some (tail.add 0 (.joinedTags letters (digits + 1)))
    else if c.toNat = 0x1F3F4 ∧ (digits = 3 ∨ digits = 0 ∧ 3 ≤ letters) then
      some (tail.add 0 .emoji)
    else none
  | _ => none

/-- The tail with a character in front that goes into a ligature with its sign. -/
def joinLigature? (tail : Tail) (c : Char) : Option Tail :=
  match tail.sign with
  | .alef =>
    if isLam c then some (tail.add 0 .plain)
    else if isJoiningTransparent c then some (tail.add 0 .alef)
    else none
  | .ligature last joined =>
    if c = zeroWidthJoiner then some (tail.add 0 (.ligature last true))
    else if isLigatureTransparent c then some (tail.add 0 (.ligature last joined))
    else
      match last with
      | .lamed => if joined ∧ c.toNat = 0x5D0 then some (tail.add 0 .plain) else none
      | .ya =>
        if joined ∧ c.toNat = 0x1A17 then some (tail.add 0 (.ligature .vowelAndYa true)) else none
      | .vowelAndYa => if c.toNat = 0x1A15 then some (tail.add 0 .plain) else none
      | .tifinagh =>
        if c.toNat = 0x2D7F then some (tail.add 1 (.ligature .joinedTifinagh true))
        else if joined ∧ isTifinagh c then some (tail.add 0 .plain)
        else none
      | .joinedTifinagh => if isTifinagh c then some (tail.shrink .plain) else none
      | .lisuTone => if isFirstLisuTone c then some (tail.add 0 .plain) else none
      | .orkhonI => if joined ∧ c.toNat = 0x10C32 then some (tail.add 0 .plain) else none
      | .khmerLetter => if c.toNat = 0x17D2 then some (tail.shrink .plain) else none
  | .vowelE =>
    match c.toNat with
    | 0x16D63 | 0x16D69 => some (tail.add 0 .plain)
    | 0x16D67 => some (tail.add 0 .vowelAi)
    | 0x16D68 => some (tail.add 1 .vowelE)
    | _ => none
  | .vowelAi => if c.toNat = 0x16D63 then some (tail.add 0 .plain) else none
  | _ => none

/-- The tail with a plain character in front. -/
def extendPlain (tail : Tail) (c : Char) : Tail :=
  if c = '\n' then tail.add 1 .lineFeed
  else if c = '\r' ∧ tail.sign = .lineFeed then tail.add 0 .plain
  else tail.add 1 .plain

/-- The tail with a character in front that no selector changes. -/
def extendJoined (tail : Tail) (c : Char) : Tail :=
  ((tail.joinEmoji? c).or (tail.joinLigature? c)).getD (tail.add (charWidth c) (.of c))

/-- The tail with a character in front. -/
def extend (c : Char) (tail : Tail) : Tail :=
  if .emoji ∈ tail.forms ∧ Form.emoji.isOf c then
    tail.add (if tail.sign.isJoined then 0 else 2) .emoji
  else if c.toNat ≤ lastPlain then (tail.refuse .emoji).extendPlain c
  else
    let tail := tail.refuse .emoji
    match Form.ofSelector? c with
    | some form => tail.ask form
    | none =>
      if .text ∈ tail.forms ∧ Form.text.isOf c then tail.add 1 .plain
      else
        let tail := tail.refuse .text
        if .wide ∈ tail.forms ∧ Form.wide.isOf c then tail.add 2 .plain
        else (tail.refuse .wide).extendJoined c

end Tail

/-- The columns of a text. -/
def displayWidth (text : List Char) : Nat :=
  (text.foldr Tail.extend .empty).columns

/-- A character that takes a column wherever it stands. -/
def isPlain (c : Char) : Bool :=
  c.toNat ≤ lastPlain && c != '\n'

theorem Tail.extend_plain {c : Char} (h : isPlain c = true) (columns : Nat) :
    Tail.extend c ⟨columns, .plain, []⟩ = ⟨columns + 1, .plain, []⟩ := by
  obtain ⟨hle, hne⟩ : c.toNat ≤ lastPlain ∧ c ≠ '\n' := by simpa [isPlain] using h
  simp [extend, refuse, extendPlain, add, hle, hne]

/-- A text of plain characters takes a column for each of them. -/
theorem displayWidth_of_isPlain {text : List Char} (h : ∀ c ∈ text, isPlain c = true) :
    displayWidth text = text.length := by
  suffices hfold : text.foldr Tail.extend .empty = ⟨text.length, .plain, []⟩ by
    simp [displayWidth, hfold]
  induction text with
  | nil => rfl
  | cons c text ih =>
    rw [List.foldr_cons, ih fun d hd => h d (List.mem_cons_of_mem c hd),
      Tail.extend_plain (h c List.mem_cons_self), List.length_cons]

end LocaleKeys.Text
