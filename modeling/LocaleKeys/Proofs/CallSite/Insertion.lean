import LocaleKeys.Proofs.CallSite.FirstArgument
import LocaleKeys.Proofs.CallSite.Reading

/-!
# Comments between items

The first pass stands in code between two items and nowhere else (`exists_split_of_kind_eq_code`).
So a comment that is put where it stands in code, and not right behind a slash of code, is an item of
its own (`Lexed.insert`). It counts for no parenthesis and has no text, whatever is written in it,
and both passes find what they found without it (`comment_transparent`).
-/

namespace LocaleKeys

namespace Walk

/-- The walk behind a part of a text, which `rest` follows. -/
def behind (walk : Walk) (rest : List Char) : List Char → Walk
  | [] => walk
  | c :: part => (walk.step c (part ++ rest)).behind rest part

theorem behind_append (walk : Walk) (part part' rest : List Char) :
    walk.behind rest (part ++ part') = (walk.behind (part' ++ rest) part).behind rest part' := by
  induction part generalizing walk with
  | nil => rfl
  | cons c part ih => rw [List.cons_append, behind, behind, List.append_assoc, ih]

/-- Characters that are taken along are passed one by one. -/
theorem behind_ahead (lexeme : Lexeme) (depth n : Nat) (part rest : List Char) :
    (Walk.mk lexeme depth (n + part.length)).behind rest part = ⟨lexeme, depth, n⟩ := by
  induction part with
  | nil => rfl
  | cons c part ih => exact ih

end Walk

theorem Pass.Over.behind_eq {walk walk' : Walk} {part rest added : List Char} {kinds : List Kind}
    (run : walkPass.Over rest walk part kinds added walk') : walk.behind rest part = walk' := by
  induction run with
  | nil => rfl
  | @cons walk _ _ c _ _ _ _ _ _ next _ _ _ ih =>
    have step : walk.step c _ = _ := next
    rw [Walk.behind, step, ih]

/-! ## Between items -/

/-- Within its content a literal is not left. -/
theorem lexeme_behind_content {quote : Quote} {content : List LiteralPart}
    (h : FitsBetween quote content) (depth : Nat) {part : List Char}
    (within : part <+: contentChars content) (rest : List Char) :
    ((Walk.mk quote.lexeme depth 0).behind rest part).lexeme = quote.lexeme := by
  induction content generalizing part with
  | nil =>
    rw [List.prefix_nil.mp within]
    rfl
  | cons first content ih =>
    have fits := h first (by simp)
    have others : FitsBetween quote content := fun p hp => h p (by simp [hp])
    cases first with
    | plain c =>
      obtain ⟨other, backslash⟩ := fits
      rcases List.prefix_cons_iff.mp within with rfl | ⟨part, rfl, inner⟩
      · rfl
      · have stays : ∀ rest, (Walk.mk quote.lexeme depth 0).step c rest
            = ⟨quote.lexeme, depth, 0⟩ := by
          intro rest
          cases quote <;>
            simp_all [Walk.step, Quote.lexeme, Walk.stepLiteral, Quote.char]
        rw [Walk.behind, stays]
        exact ih others inner
    | escaped c =>
      have takes : ∀ rest, (Walk.mk quote.lexeme depth 0).step '\\' rest
          = ⟨quote.lexeme, depth, 1⟩ := by
        intro rest
        cases quote <;> rfl
      rcases List.prefix_cons_iff.mp within with rfl | ⟨part, rfl, inner⟩
      · rfl
      · rw [Walk.behind, takes]
        rcases List.prefix_cons_iff.mp inner with rfl | ⟨part, rfl, innermost⟩
        · rfl
        · exact ih others innermost

/-- Inside of an item the first pass does not stand in code. -/
theorem kind_inside_item {item : Item} (h : item.WellFormed) (depth : Nat) {part part' : List Char}
    (split : item.chars = part ++ part') (begun : part ≠ []) (unended : part' ≠ [])
    (rest : List Char) : ((Walk.mk .code depth 0).behind (part' ++ rest) part).kind ≠ .code := by
  obtain ⟨c, part, rfl⟩ := List.exists_cons_of_ne_nil begun
  have of_comment : item.kind = .comment →
      ((Walk.mk .code depth 0).behind (part' ++ rest) (c :: part)).kind ≠ .code := by
    intro kind
    obtain ⟨body, chars, -, along⟩ := Item.exists_comment_chars h kind
    rw [split, List.cons_append, List.cons.injEq] at chars
    obtain ⟨rfl, rfl⟩ := chars
    have ahead : (Walk.mk .code depth 0).step '/' (part ++ (part' ++ rest))
        = ⟨.code, depth, part'.length + part.length⟩ := by
      rw [← List.append_assoc, Nat.add_comm, ← List.length_append, ← along rest]
      simp [Walk.step, Walk.stepCode]
    rw [Walk.behind, ahead, Walk.behind_ahead]
    simp [Walk.kind, unended]
  cases item with
  | code d =>
    obtain ⟨-, nothing⟩ := List.cons.inj split
    exact absurd (List.append_eq_nil_iff.mp nothing.symm).2 unended
  | lineComment text => exact of_comment rfl
  | blockComment text => exact of_comment rfl
  | literal quote content =>
    obtain ⟨rfl, inside⟩ := List.cons.inj split
    have within : part <+: contentChars content := by
      have whole : part <+: contentChars content ++ [quote.char] := ⟨part', inside.symm⟩
      refine (List.prefix_concat_iff.mp whole).resolve_left ?_
      rintro rfl
      exact unended (List.self_eq_append_right.mp inside)
    have opens : (Walk.mk .code depth 0).step quote.char (part ++ (part' ++ rest))
        = ⟨quote.lexeme, depth, 0⟩ := by
      cases quote <;> rfl
    have lexeme := lexeme_behind_content h depth within (part' ++ rest)
    rw [Walk.behind, opens, Walk.kind, lexeme]
    cases quote <;> simp [Quote.lexeme]

/-- Where the first pass stands in code there is a boundary of items. -/
theorem exists_split_of_kind_eq_code {items : List Item} (h : Lexed items) {depth depth' : Nat}
    (nest : nesting depth items = some depth') {front back rest : List Char}
    (split : spell items = front ++ back) (clear : OpensNoComment rest)
    (code : ((Walk.mk .code depth 0).behind (back ++ rest) front).kind = .code) :
    ∃ before after, items = before ++ after ∧ spell before = front ∧ spell after = back := by
  induction items generalizing depth front with
  | nil =>
    obtain ⟨rfl, rfl⟩ := List.append_eq_nil_iff.mp split.symm
    exact ⟨[], [], rfl, rfl, rfl⟩
  | cons item items ih =>
    by_cases begun : front = []
    · subst begun
      exact ⟨[], item :: items, rfl, rfl, split⟩
    obtain ⟨formed, slash, lexed⟩ := h
    obtain ⟨middle, first, others⟩ := Option.bind_eq_some_iff.mp nest
    rcases List.append_eq_append_iff.mp split with ⟨part', rfl, rest_eq⟩ | ⟨part', chars, rfl⟩
    · have rest_eq : spell items = part' ++ back := rest_eq
      have opens : item = .code '/' → OpensNoComment (spell items ++ rest) :=
        fun hc => (slash hc).append clear
      have run := walkPass_over_item formed first opens
      rw [rest_eq, List.append_assoc] at run
      rw [Walk.behind_append, run.behind_eq] at code
      obtain ⟨before, after, rfl, rfl, rfl⟩ := ih lexed others rest_eq code
      exact ⟨item :: before, after, rfl, rfl, rfl⟩
    · by_cases ended : part' = []
      · subst ended
        rw [List.append_nil] at chars
        exact ⟨[item], items, rfl, by simp [spell, chars], rfl⟩
      · rw [List.append_assoc] at code
        exact absurd code (kind_inside_item formed depth chars begun ended _)

/-! ## One more item -/

theorem lexed_append_iff {items items' : List Item} :
    Lexed (items ++ items') ↔ Lexed items ∧ Lexed items' ∧
      (items.getLast? = some (.code '/') → OpensNoComment (spell items')) := by
  induction items with
  | nil => simp [Lexed]
  | cons item items ih =>
    rw [List.cons_append, Lexed, Lexed, ih, spell_append]
    constructor
    · rintro ⟨formed, slash, lexed, lexed', last⟩
      refine ⟨⟨formed, fun hc => (slash hc).left, lexed⟩, lexed', fun behind => ?_⟩
      cases items with
      | nil => exact slash (Option.some.inj behind)
      | cons next items => exact last (by rwa [List.getLast?_cons_cons] at behind)
    · rintro ⟨⟨formed, slash, lexed⟩, lexed', last⟩
      refine ⟨formed, fun hc => (slash hc).before ?_, lexed, lexed', fun behind => last ?_⟩
      · rintro rfl
        exact last (by rw [hc]; rfl)
      · rw [List.getLast?_cons, behind]
        rfl

/-- A comment may stand between items, but not right behind a slash. -/
theorem Lexed.insert {items items' : List Item} (h : Lexed (items ++ items')) {comment : Item}
    (formed : comment.WellFormed) (kind : comment.kind = .comment)
    (last : items.getLast? ≠ some (.code '/')) : Lexed (items ++ comment :: items') := by
  obtain ⟨lexed, lexed', -⟩ := lexed_append_iff.mp h
  have other : comment ≠ .code '/' := by
    rintro rfl
    exact absurd kind (by decide)
  exact lexed_append_iff.mpr
    ⟨lexed, ⟨formed, fun hc => absurd hc other, lexed'⟩, fun slash => absurd slash last⟩

/-- A comment counts for no parenthesis. -/
theorem Balanced.insert {items items' : List Item} (h : Balanced (items ++ items'))
    {comment : Item} (kind : comment.kind = .comment) : Balanced (items ++ comment :: items') := by
  rw [balanced_iff_nesting, nesting_append] at h ⊢
  have passed : ∀ depth, nesting depth (comment :: items') = nesting depth items' := by
    intro depth
    rw [nesting, Item.nest_of_kind_ne_code (by simp [kind]), Option.bind_some]
  rw [← h]
  exact Option.bind_congr fun depth _ => passed depth

/-- A comment adds nothing to the first argument. -/
theorem textOf_firstArgument_insert (items items' : List Item) {comment : Item}
    (kind : comment.kind = .comment) :
    textOf (firstArgument (items ++ comment :: items'))
      = textOf (firstArgument (items ++ items')) := by
  have no_comma : comment ≠ .code ',' := by
    rintro rfl
    exact absurd kind (by decide)
  have no_text : comment.text = [] := by
    rcases Item.eq_comment_of_kind kind with ⟨text, rfl⟩ | ⟨text, rfl⟩ <;> rfl
  induction items with
  | nil =>
    rw [List.nil_append, firstArgument, List.takeWhile_cons_of_pos (by simpa using no_comma),
      textOf, List.flatMap_cons, no_text]
    rfl
  | cons item items ih =>
    by_cases comma : item = .code ','
    · subst comma
      rfl
    · simp only [firstArgument, textOf, List.cons_append] at ih ⊢
      rw [List.takeWhile_cons_of_pos (by simpa using comma),
        List.takeWhile_cons_of_pos (by simpa using comma), List.flatMap_cons, List.flatMap_cons, ih]

/-! ## Comments -/

/-- The first pass stands in code behind the first of two parts of a text. -/
def InCode (front tail : List Char) : Prop :=
  (Walk.start.behind tail front).kind = .code

/-- The last item of the first part is a slash of code. -/
def EndsInSlash (front tail : List Char) : Prop :=
  ∃ before, front = before ++ ['/'] ∧ InCode before ('/' :: tail)

/-- A comment of either kind. -/
inductive IsComment : List Char → Prop where
  | block {text : List Char} (unended : ¬ ['*', '/'] <:+: text) :
      IsComment ('/' :: '*' :: (text ++ ['*', '/']))
  | line {text : List Char} (unended : '\n' ∉ text) : IsComment ('/' :: '/' :: (text ++ ['\n']))

theorem IsComment.exists_item {comment : List Char} (h : IsComment comment) :
    ∃ item : Item, item.WellFormed ∧ item.kind = .comment ∧ item.chars = comment := by
  cases h with
  | line unended => exact ⟨.lineComment _, unended, rfl, rfl⟩
  | @block text unended =>
    refine ⟨.blockComment text, fun inside => ?_, rfl, rfl⟩
    rcases List.infix_concat_iff.mp inside with ⟨front, same⟩ | inside
    · have last := congrArg List.getLast? same
      simp at last
    · exact unended inside

theorem endsInSlash_of_getLast? {items : List Item} (h : Lexed items) {depth : Nat}
    (nest : nesting 0 items = some depth) (last : items.getLast? = some (.code '/'))
    (tail : List Char) : EndsInSlash (spell items) tail := by
  obtain ⟨before, rfl⟩ := List.getLast?_eq_some_iff.mp last
  obtain ⟨lexed, -, slash⟩ := lexed_append_iff.mp h
  rw [nesting_append] at nest
  obtain ⟨depth', nest, -⟩ := Option.bind_eq_some_iff.mp nest
  have opens : before.getLast? = some (.code '/') → OpensNoComment ('/' :: tail) :=
    fun behind => absurd rfl (slash behind).1
  have run := walkPass_over_lexed lexed nest opens
  refine ⟨spell before, spell_append .., ?_⟩
  rw [InCode, Walk.start, run.behind_eq]
  rfl

/-- A comment in an argument list is transparent: put where the first pass stands in code, and not
right behind a slash, it is part of the argument list, which ends where it ended, and the text of
the first argument is the same. -/
theorem comment_transparent {front behind tail comment : List Char}
    (list : argumentList? (front ++ tail) = some (front ++ behind)) (code : InCode front tail)
    (slash : ¬ EndsInSlash front tail) (h : IsComment comment) :
    argumentList? (front ++ comment ++ tail) = some (front ++ comment ++ behind) ∧
      firstLiteral (front ++ comment ++ behind) = firstLiteral (front ++ behind) := by
  obtain ⟨items, rest, lexed, balanced, split, spelled⟩ := exists_balanced_items list
  rw [List.append_assoc, List.append_cancel_left_eq] at split
  subst split
  have closing : OpensNoComment (')' :: rest) := ⟨by simp, by simp⟩
  obtain ⟨before, after, rfl, rfl, rfl⟩ :=
    exists_split_of_kind_eq_code lexed (balanced.nesting_eq 0) spelled closing code
  obtain ⟨item, formed, kind, rfl⟩ := h.exists_item
  have last : before.getLast? ≠ some (.code '/') := by
    intro last
    have nest := balanced.nesting_eq 0
    rw [nesting_append] at nest
    obtain ⟨depth, nest, -⟩ := Option.bind_eq_some_iff.mp nest
    exact slash (endsInSlash_of_getLast? (lexed_append_iff.mp lexed).1 nest last _)
  have lexed' := lexed.insert formed kind last
  have chars : spell before ++ item.chars ++ spell after = spell (before ++ item :: after) := by
    rw [spell_append, spell_cons, List.append_assoc]
  constructor
  · rw [← List.append_assoc, chars]
    exact argumentList?_spell lexed' (balanced.insert kind) rest
  · rw [chars, ← spell_append, firstLiteral_spell lexed', firstLiteral_spell lexed,
      textOf_firstArgument_insert before after kind]

/-- A comment in nested parentheses, with a quote, a comma, a parenthesis, a backslash and a star in
it. -/
theorem comment_transparent_marks :
    argumentList? ['(', 'x', '+', '"', 'a', '"', ')', ',', 'y', ')', ';']
        = some ['(', 'x', '+', '"', 'a', '"', ')', ',', 'y'] ∧
      InCode ['(', 'x', '+'] ['"', 'a', '"', ')', ',', 'y', ')', ';'] ∧
      ¬ EndsInSlash ['(', 'x', '+'] ['"', 'a', '"', ')', ',', 'y', ')', ';'] ∧
      IsComment ['/', '*', '"', ',', ')', '\\', '*', '*', '/'] ∧
      argumentList? (['(', 'x', '+'] ++ ['/', '*', '"', ',', ')', '\\', '*', '*', '/']
          ++ ['"', 'a', '"', ')', ',', 'y', ')', ';'])
        = some (['(', 'x', '+'] ++ ['/', '*', '"', ',', ')', '\\', '*', '*', '/']
          ++ ['"', 'a', '"', ')', ',', 'y']) ∧
      firstLiteral (['(', 'x', '+'] ++ ['/', '*', '"', ',', ')', '\\', '*', '*', '/']
          ++ ['"', 'a', '"', ')', ',', 'y']) = ['a'] := by
  have list : argumentList? (['(', 'x', '+'] ++ ['"', 'a', '"', ')', ',', 'y', ')', ';'])
      = some (['(', 'x', '+'] ++ ['"', 'a', '"', ')', ',', 'y']) := by decide
  have code : InCode ['(', 'x', '+'] ['"', 'a', '"', ')', ',', 'y', ')', ';'] :=
    show (Walk.start.behind _ _).kind = .code by decide
  have slash : ¬ EndsInSlash ['(', 'x', '+'] ['"', 'a', '"', ')', ',', 'y', ')', ';'] := by
    rintro ⟨before, split, -⟩
    simpa using congrArg List.getLast? split
  have comment : IsComment ['/', '*', '"', ',', ')', '\\', '*', '*', '/'] :=
    @IsComment.block ['"', ',', ')', '\\', '*'] (by simp [List.infix_cons_iff])
  obtain ⟨found, text⟩ := comment_transparent list code slash comment
  exact ⟨list, code, slash, comment, found, text.trans (by decide)⟩

end LocaleKeys
