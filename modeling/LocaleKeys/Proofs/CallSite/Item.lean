import LocaleKeys.CallSite.Arguments

/-!
# Lexical items of an argument list

The grammar of what stands between the parentheses of a call, apart from both passes that read it:
literals between quotes, with a backslash taking the next character along, comments, and single
characters of code. An item is spelled out by `Item.chars`; `Lexed` says that a list of items is how
its spelling is to be read. The lengths that the passes count ahead are those of the items
(`commentLength_lineComment`, `commentLength_blockComment`, `characterLength_content`). Every text
is spelled by items up to the parenthesis that closes it or up to what it leaves open
(`items_cases`).
-/

namespace LocaleKeys

/-- The quotes of the two kinds of literals. -/
inductive Quote where
  | double
  | single
deriving DecidableEq

/-- The character that opens and closes the literal. -/
def Quote.char : Quote → Char
  | .double => '"'
  | .single => '\''

/-- What the characters of the literal are. -/
def Quote.kind : Quote → Kind
  | .double => .string
  | .single => .character

/-- A part of the content of a literal. -/
inductive LiteralPart where
  | plain (c : Char)
  /-- A backslash and the character that it takes along. -/
  | escaped (c : Char)
deriving DecidableEq

namespace LiteralPart

/-- The spelling of a part. -/
def chars : LiteralPart → List Char
  | .plain c => [c]
  | .escaped c => ['\\', c]

/-- The text that a part stands for: an escaped quote stands for the quote, any other pair for
itself. -/
def text : LiteralPart → List Char
  | .plain c => [c]
  | .escaped c => if c = '"' then ['"'] else ['\\', c]

/-- The part does not end the literal that it stands in. -/
def FitsIn (quote : Quote) : LiteralPart → Prop
  | .plain c => c ≠ quote.char ∧ c ≠ '\\'
  | .escaped _ => True

end LiteralPart

/-- The spelling of the content of a literal. -/
def contentChars (content : List LiteralPart) : List Char :=
  content.flatMap LiteralPart.chars

@[simp] theorem contentChars_nil : contentChars [] = [] := rfl

@[simp] theorem contentChars_cons (part : LiteralPart) (content : List LiteralPart) :
    contentChars (part :: content) = part.chars ++ contentChars content := rfl

/-- A lexical item. -/
inductive Item where
  | literal (quote : Quote) (content : List LiteralPart)
  /-- A comment up to the end of the line. -/
  | lineComment (text : List Char)
  /-- A comment between `/*` and `*/`. -/
  | blockComment (text : List Char)
  /-- A character of code. -/
  | code (c : Char)
deriving DecidableEq

namespace Item

/-- The spelling of an item. -/
def chars : Item → List Char
  | .literal quote content => quote.char :: (contentChars content ++ [quote.char])
  | .lineComment text => '/' :: '/' :: (text ++ ['\n'])
  | .blockComment text => '/' :: '*' :: (text ++ ['*', '/'])
  | .code c => [c]

/-- What the characters of an item are. -/
def kind : Item → Kind
  | .literal quote _ => quote.kind
  | .lineComment _ | .blockComment _ => .comment
  | .code _ => .code

/-- What each character of an item is. -/
def kinds (item : Item) : List Kind :=
  List.replicate item.chars.length item.kind

/-- The text that a string literal stands for; nothing else has any. -/
def text : Item → List Char
  | .literal .double content => content.flatMap LiteralPart.text
  | _ => []

/-- An item ends where its spelling ends, and not before. -/
def WellFormed : Item → Prop
  | .literal quote content => ∀ part ∈ content, part.FitsIn quote
  | .lineComment text => '\n' ∉ text
  | .blockComment text => ¬ ['*', '/'] <:+: text ++ ['*']
  | .code c => c ≠ '"' ∧ c ≠ '\''

/-- The number of open parentheses behind an item, if it closes none that is not open. -/
def nest (depth : Nat) : Item → Option Nat
  | .code '(' => some (depth + 1)
  | .code ')' => if depth = 0 then none else some (depth - 1)
  | _ => some depth

end Item

/-- The text makes no comment of a slash in front of it. -/
def OpensNoComment (text : List Char) : Prop :=
  text.head? ≠ some '/' ∧ text.head? ≠ some '*'

/-- The spelling of items. -/
def spell (items : List Item) : List Char :=
  items.flatMap Item.chars

/-- What the characters of items are. -/
def kindsOf (items : List Item) : List Kind :=
  items.flatMap Item.kinds

/-- The text that the string literals among items stand for. -/
def textOf (items : List Item) : List Char :=
  items.flatMap Item.text

@[simp] theorem spell_cons (item : Item) (items : List Item) :
    spell (item :: items) = item.chars ++ spell items := rfl

@[simp] theorem spell_append (items items' : List Item) :
    spell (items ++ items') = spell items ++ spell items' :=
  List.flatMap_append

theorem kindsOf_append (items items' : List Item) :
    kindsOf (items ++ items') = kindsOf items ++ kindsOf items' :=
  List.flatMap_append

/-- The items are how their spelling is to be read: each is well-formed, and a slash of code begins
no comment. -/
def Lexed : List Item → Prop
  | [] => True
  | item :: items =>
    item.WellFormed ∧ (item = .code '/' → OpensNoComment (spell items)) ∧ Lexed items

/-- The number of open parentheses behind items. -/
def nesting (depth : Nat) : List Item → Option Nat
  | [] => some depth
  | item :: items => (item.nest depth).bind (nesting · items)

/-- Only a closing parenthesis can be one too many. -/
theorem Item.eq_of_nest_eq_none {item : Item} {depth : Nat} (h : item.nest depth = none) :
    item = .code ')' ∧ depth = 0 := by
  unfold nest at h
  split at h
  · exact absurd h (by simp)
  · exact ⟨rfl, Decidable.byContradiction fun inside => by simp [inside] at h⟩
  · exact absurd h (by simp)

theorem Item.nest_of_kind_ne_code {item : Item} (h : item.kind ≠ .code) (depth : Nat) :
    item.nest depth = some depth := by
  cases item with
  | code c => exact absurd rfl h
  | _ => rfl

theorem Item.kinds_literal (quote : Quote) (content : List LiteralPart) :
    (Item.literal quote content).kinds =
      quote.kind :: (List.replicate (contentChars content).length quote.kind ++ [quote.kind]) := by
  simp [Item.kinds, Item.chars, Item.kind, List.replicate_succ, ← List.replicate_succ']

/-! ## Comments -/

theorem eq_cons_of_commentLength_ne_zero {text : List Char} (h : commentLength text ≠ 0) :
    (∃ rest, text = '/' :: rest) ∨ ∃ rest, text = '*' :: rest := by
  unfold commentLength at h
  split at h
  · next rest => exact .inl ⟨rest, rfl⟩
  · next rest => exact .inr ⟨rest, rfl⟩
  · exact absurd rfl h

theorem commentLength_eq_zero_iff {text : List Char} :
    commentLength text = 0 ↔ OpensNoComment text := by
  constructor
  · intro h
    constructor
    all_goals
      intro head
      obtain ⟨rest, rfl⟩ := List.head?_eq_some_iff.mp head
      exact absurd h (Nat.succ_ne_zero _)
  · rintro ⟨slash, star⟩
    apply Decidable.byContradiction
    intro h
    rcases eq_cons_of_commentLength_ne_zero h with ⟨rest, rfl⟩ | ⟨rest, rfl⟩
    · exact slash rfl
    · exact star rfl

/-- A line comment has an end, or there is no newline for it. -/
theorem lineComment_cases (text : List Char) :
    (∃ body rest, text = body ++ '\n' :: rest ∧ '\n' ∉ body) ∨ '\n' ∉ text := by
  induction text with
  | nil => exact .inr List.not_mem_nil
  | cons c text ih =>
    by_cases hc : c = '\n'
    · subst hc
      exact .inl ⟨[], text, rfl, List.not_mem_nil⟩
    · rcases ih with ⟨body, rest, rfl, fresh⟩ | fresh
      · refine .inl ⟨c :: body, rest, rfl, ?_⟩
        simpa [Ne.symm hc] using fresh
      · exact .inr (by simpa [Ne.symm hc] using fresh)

theorem lineCommentLength_of_unended {text : List Char} (h : '\n' ∉ text) :
    lineCommentLength text = text.length := by
  induction text with
  | nil => rfl
  | cons c text ih =>
    simp only [List.mem_cons, not_or] at h
    simp [lineCommentLength, Ne.symm h.1, ih h.2]

theorem lineCommentLength_append {text : List Char} (h : '\n' ∉ text) (rest : List Char) :
    lineCommentLength (text ++ '\n' :: rest) = text.length + 1 := by
  induction text with
  | nil => rfl
  | cons c text ih =>
    simp only [List.mem_cons, not_or] at h
    simp [lineCommentLength, Ne.symm h.1, ih h.2]

theorem commentLength_lineComment {text : List Char} (h : (Item.lineComment text).WellFormed)
    (rest : List Char) :
    commentLength ('/' :: (text ++ ['\n']) ++ rest) = ('/' :: (text ++ ['\n'])).length := by
  rw [List.cons_append, List.append_assoc, commentLength, List.singleton_append,
    lineCommentLength_append h, List.length_cons, List.length_append]
  rfl

/-- A star and a slash stand in a text behind a character if that is the star or they stand in the
text. -/
theorem starSlash_infix_cons {previous c : Char} {text : List Char} :
    ['*', '/'] <:+: previous :: c :: text ↔
      (previous = '*' ∧ c = '/') ∨ ['*', '/'] <:+: c :: text := by
  rw [List.infix_cons_iff]
  apply or_congr_left
  simp [List.cons_prefix_cons, eq_comm]

/-- A block comment has an end, or there is no star with a slash behind it. -/
theorem blockComment_cases (text : List Char) :
    (∃ body rest, text = body ++ '*' :: '/' :: rest ∧ (Item.blockComment body).WellFormed) ∨
      ¬ ['*', '/'] <:+: text := by
  induction text with
  | nil => exact .inr (by decide)
  | cons c text ih =>
    by_cases first : ['*', '/'] <+: c :: text
    · obtain ⟨rest, split⟩ := first
      have fresh : ¬ ['*', '/'] <:+: ([] : List Char) ++ ['*'] := by decide
      exact .inl ⟨[], rest, split.symm, fresh⟩
    · rcases ih with ⟨body, rest, rfl, formed⟩ | fresh
      · refine .inl ⟨c :: body, rest, rfl, fun inside => ?_⟩
        rcases List.infix_cons_iff.mp inside with start | later
        · refine first (start.trans ⟨'/' :: rest, ?_⟩)
          simp
        · exact formed later
      · exact .inr fun inside => (List.infix_cons_iff.mp inside).elim first fresh

theorem blockCommentLength_of_unended {previous : Char} {text : List Char}
    (h : ¬ ['*', '/'] <:+: previous :: text) : blockCommentLength previous text = text.length := by
  induction text generalizing previous with
  | nil => rfl
  | cons c text ih =>
    rw [starSlash_infix_cons, not_or] at h
    simp [blockCommentLength, h.1, ih h.2]

theorem blockCommentLength_append {previous : Char} {text : List Char}
    (h : ¬ ['*', '/'] <:+: previous :: (text ++ ['*'])) (rest : List Char) :
    blockCommentLength previous (text ++ '*' :: '/' :: rest) = text.length + 2 := by
  induction text generalizing previous with
  | nil => simp [blockCommentLength]
  | cons c text ih =>
    rw [List.cons_append, starSlash_infix_cons, not_or] at h
    simp [blockCommentLength, h.1, ih h.2]

theorem commentLength_blockComment {text : List Char} (h : (Item.blockComment text).WellFormed)
    (rest : List Char) :
    commentLength ('*' :: (text ++ ['*', '/']) ++ rest) = ('*' :: (text ++ ['*', '/'])).length := by
  rw [List.cons_append, List.append_assoc, commentLength, List.cons_append, List.singleton_append,
    blockCommentLength_append, List.length_cons, List.length_append]
  · rfl
  intro inside
  rcases List.infix_cons_iff.mp inside with first | inside
  · exact absurd (List.cons_prefix_cons.mp first).1 (by decide)
  · exact h inside

/-! ## Literals -/

/-- The content fits between quotes. -/
def FitsBetween (quote : Quote) (content : List LiteralPart) : Prop :=
  ∀ part ∈ content, part.FitsIn quote

theorem FitsBetween.cons {quote : Quote} {part : LiteralPart} {content : List LiteralPart}
    (h : part.FitsIn quote) (h' : FitsBetween quote content) :
    FitsBetween quote (part :: content) := by
  intro p hp
  rcases List.mem_cons.mp hp with rfl | hp
  · exact h
  · exact h' p hp

/-- A literal has an end, or it takes all of the text but perhaps a backslash at the end. -/
theorem literal_cases (quote : Quote) : ∀ text : List Char,
    (∃ content rest, FitsBetween quote content ∧
      text = contentChars content ++ quote.char :: rest) ∨
    ∃ content rest, FitsBetween quote content ∧ text = contentChars content ++ rest ∧
      (rest = [] ∨ rest = ['\\'])
  | [] => .inr ⟨[], [], nofun, rfl, .inl rfl⟩
  | [c] => by
    by_cases close : c = quote.char
    · exact .inl ⟨[], [], nofun, by rw [close]; rfl⟩
    · by_cases backslash : c = '\\'
      · exact .inr ⟨[], ['\\'], nofun, by rw [backslash]; rfl, .inr rfl⟩
      · exact .inr ⟨[.plain c], [], .cons ⟨close, backslash⟩ nofun, rfl, .inl rfl⟩
  | c :: d :: rest => by
    by_cases close : c = quote.char
    · exact .inl ⟨[], d :: rest, nofun, by rw [close]; rfl⟩
    · by_cases backslash : c = '\\'
      · subst backslash
        rcases literal_cases quote rest with
          ⟨content, behind, fits, rfl⟩ | ⟨content, behind, fits, rfl, last⟩
        · exact .inl ⟨.escaped d :: content, behind, .cons trivial fits, rfl⟩
        · exact .inr ⟨.escaped d :: content, behind, .cons trivial fits, rfl, last⟩
      · rcases literal_cases quote (d :: rest) with
          ⟨content, behind, fits, split⟩ | ⟨content, behind, fits, split, last⟩
        · refine .inl ⟨.plain c :: content, behind, .cons ⟨close, backslash⟩ fits, ?_⟩
          rw [split]
          rfl
        · refine .inr ⟨.plain c :: content, behind, .cons ⟨close, backslash⟩ fits, ?_, last⟩
          rw [split]
          rfl

theorem characterLength_content {content : List LiteralPart}
    (h : FitsBetween .single content) (rest : List Char) :
    characterLength (contentChars content ++ ['\''] ++ rest)
      = (contentChars content ++ ['\'']).length := by
  rw [List.append_assoc, List.singleton_append, List.length_append]
  induction content with
  | nil => rfl
  | cons part content ih =>
    have fits := h part (by simp)
    have tail := ih fun p hp => h p (by simp [hp])
    cases part with
    | plain c =>
      have quote : c ≠ '\'' := fits.1
      rw [contentChars_cons, LiteralPart.chars, List.append_assoc, List.singleton_append,
        characterLength.eq_3 c _ fun _ _ h => absurd h fits.2, if_neg quote, tail]
      rfl
    | escaped c =>
      rw [contentChars_cons, LiteralPart.chars, List.append_assoc, List.cons_append,
        List.singleton_append, characterLength, tail]
      rfl

/-! ## Texts by items -/

/-- How a text goes on to its end inside of what it opens: a literal, a comment, or nothing but the
parentheses around. -/
inductive LeftOpen : List Char → Prop where
  | parenthesis : LeftOpen []
  | literal (quote : Quote) {content : List LiteralPart} {tail : List Char}
      (fits : FitsBetween quote content) (cut : tail = [] ∨ tail = ['\\']) :
      LeftOpen (quote.char :: (contentChars content ++ tail))
  | lineComment {text : List Char} (unended : '\n' ∉ text) : LeftOpen ('/' :: '/' :: text)
  | blockComment {text : List Char} (unended : ¬ ['*', '/'] <:+: text) :
      LeftOpen ('/' :: '*' :: text)

/-- The text begins with an item that closes no parenthesis too many. -/
def BeginsWithItem (depth : Nat) (text : List Char) : Prop :=
  ∃ (item : Item) (rest : List Char) (depth' : Nat), item.WellFormed ∧
    item.nest depth = some depth' ∧ (item = .code '/' → OpensNoComment rest) ∧
    text = item.chars ++ rest

/-- A literal is an item or is left open. -/
theorem literal_or_leftOpen (depth : Nat) (quote : Quote) (text : List Char) :
    BeginsWithItem depth (quote.char :: text) ∨ LeftOpen (quote.char :: text) := by
  rcases literal_cases quote text with ⟨content, rest, fits, rfl⟩ | ⟨content, tail, fits, rfl, cut⟩
  · exact .inl ⟨.literal quote content, rest, depth, fits, rfl, by simp, by simp [Item.chars]⟩
  · exact .inr (.literal quote fits cut)

/-- A comment is an item or is left open. -/
theorem comment_or_leftOpen (depth : Nat) {text : List Char} (opens : commentLength text ≠ 0) :
    BeginsWithItem depth ('/' :: text) ∨ LeftOpen ('/' :: text) := by
  rcases eq_cons_of_commentLength_ne_zero opens with ⟨rest, rfl⟩ | ⟨rest, rfl⟩
  · rcases lineComment_cases rest with ⟨body, behind, rfl, fresh⟩ | fresh
    · exact .inl ⟨.lineComment body, behind, depth, fresh, rfl, by simp, by simp [Item.chars]⟩
    · exact .inr (.lineComment fresh)
  · rcases blockComment_cases rest with ⟨body, behind, rfl, formed⟩ | fresh
    · exact .inl ⟨.blockComment body, behind, depth, formed, rfl, by simp, by simp [Item.chars]⟩
    · exact .inr (.blockComment fresh)

/-- A text begins with the closing parenthesis, with an item, or with what it leaves open. -/
theorem text_cases (depth : Nat) (text : List Char) :
    (∃ rest, depth = 0 ∧ text = ')' :: rest) ∨ BeginsWithItem depth text ∨ LeftOpen text := by
  cases text with
  | nil => exact .inr (.inr .parenthesis)
  | cons c text =>
    by_cases double : c = '"'
    · subst double
      exact .inr (literal_or_leftOpen depth .double text)
    by_cases single : c = '\''
    · subst single
      exact .inr (literal_or_leftOpen depth .single text)
    by_cases comment : c = '/' ∧ commentLength text ≠ 0
    · obtain ⟨rfl, opens⟩ := comment
      exact .inr (comment_or_leftOpen depth opens)
    cases nest : (Item.code c).nest depth with
    | some depth' =>
      refine .inr (.inl ⟨.code c, text, depth', ⟨double, single⟩, nest, fun slash => ?_, rfl⟩)
      rw [← commentLength_eq_zero_iff]
      exact Decidable.not_not.mp fun opens => comment ⟨Item.code.inj slash, opens⟩
    | none =>
      obtain ⟨closing, outside⟩ := Item.eq_of_nest_eq_none nest
      exact .inl ⟨text, outside, by rw [Item.code.inj closing]⟩

/-- The text comes to its end before the parentheses around it do, behind items and inside of what
follows them. -/
def EndsOpen (depth : Nat) (text : List Char) : Prop :=
  ∃ (items : List Item) (tail : List Char) (depth' : Nat), Lexed items ∧
    nesting depth items = some depth' ∧
    (items.getLast? = some (.code '/') → OpensNoComment tail) ∧ LeftOpen tail ∧
    text = spell items ++ tail

theorem OpensNoComment.left {text rest : List Char} (h : OpensNoComment (text ++ rest)) :
    OpensNoComment text := by
  cases text with
  | nil => exact ⟨nofun, nofun⟩
  | cons c text => exact h

/-- A text is spelled by items up to the parenthesis that closes it, or it ends before. -/
theorem items_cases (depth : Nat) (text : List Char) :
    (∃ (items : List Item) (rest : List Char), Lexed items ∧ nesting depth items = some 0 ∧
      text = spell items ++ ')' :: rest) ∨ EndsOpen depth text := by
  rcases text_cases depth text with
    ⟨rest, rfl, rfl⟩ | ⟨item, rest, depth', formed, nest, slash, split⟩ | leftOpen
  · exact .inl ⟨[], rest, trivial, rfl, rfl⟩
  · have shorter : rest.length < text.length := by
      rw [split]
      cases item <;> simp [Item.chars] <;> omega
    have further : ∀ items, nesting depth (item :: items) = nesting depth' items := by
      intro items
      rw [nesting, nest, Option.bind_some]
    rcases items_cases depth' rest with ⟨items, behind, lexed, others, rfl⟩ |
      ⟨items, tail, depth'', lexed, others, last, leftOpen, rfl⟩
    · refine .inl ⟨item :: items, behind, ⟨formed, fun hc => (slash hc).left, lexed⟩, ?_, ?_⟩
      · rw [further, others]
      · rw [split, spell_cons, List.append_assoc]
    · refine .inr ⟨item :: items, tail, depth'', ⟨formed, fun hc => (slash hc).left, lexed⟩, ?_, ?_,
        leftOpen, ?_⟩
      · rw [further, others]
      · intro behind
        cases items with
        | nil => exact slash (Option.some.inj behind)
        | cons next items => exact last (by rwa [List.getLast?_cons_cons] at behind)
      · rw [split, spell_cons, List.append_assoc]
  · exact .inr ⟨[], text, depth, trivial, rfl, nofun, leftOpen, rfl⟩
termination_by text.length

end LocaleKeys
