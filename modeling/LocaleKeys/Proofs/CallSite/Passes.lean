import LocaleKeys.Proofs.CallSite.Item

/-!
# Both passes read the same items

A `Pass` is what the two passes have in common: a state that goes along with the characters, what a
state takes the next character for, and what that character adds to the result. `Pass.Over` is a run
of a pass over a part of a text with the rest in sight. Each pass runs over a well-formed item and
comes out in code again (`walkPass_over_item`, `readerPass_over_item`), and the text of an argument
list is the spelling of items (`exists_items`), so the second pass takes every character for what
the first one takes it for (`passes_agree`).
-/

namespace LocaleKeys

/-- What a character is, if the pass takes the next character for `before` in front of it and for
`after` behind it: it is part of what it opens or stands in. -/
def Kind.across (before after : Kind) : Kind :=
  if before = .code then after else before

/-- What the first pass takes the next character for. -/
def Walk.kind (walk : Walk) : Kind :=
  match walk.lexeme with
  | .code => if walk.ahead = 0 then .code else .comment
  | .string => .string
  | .character => .character

/-- What the second pass takes the next character for. -/
def Reader.kind (reader : Reader) : Kind :=
  if reader.ahead = 0 then
    if reader.inQuotes then .string else .code
  else reader.passing

/-- A pass over a text. -/
structure Pass (σ : Type) where
  stops : σ → Char → Bool
  step : σ → Char → List Char → σ
  added : σ → Char → List Char → List Char
  kind : σ → Kind

/-- The first pass. It adds what it reads to the argument list. -/
def walkPass : Pass Walk := ⟨Walk.closes, Walk.step, fun _ c _ => [c], Walk.kind⟩

/-- The second pass. -/
def readerPass : Pass Reader := ⟨Reader.stops, Reader.step, Reader.added, Reader.kind⟩

namespace Pass

variable {σ : Type}

/-- What the pass takes the characters for that it visits. -/
def kinds (pass : Pass σ) (s : σ) : List Char → List Kind
  | [] => []
  | c :: rest =>
    if pass.stops s c then []
    else
      Kind.across (pass.kind s) (pass.kind (pass.step s c rest))
        :: pass.kinds (pass.step s c rest) rest

/-- A run of the pass over a part of a text that `rest` follows, with what the characters are taken
for and what they add. -/
inductive Over (pass : Pass σ) (rest : List Char) :
    σ → List Char → List Kind → List Char → σ → Prop where
  | nil (s : σ) : Over pass rest s [] [] [] s
  | cons {s t s' : σ} {c : Char} {part added : List Char} {kind : Kind} {kinds : List Kind}
      (adds : List Char)
      (goes : pass.stops s c = false)
      (next : pass.step s c (part ++ rest) = t)
      (adds_eq : pass.added s c (part ++ rest) = adds)
      (kind_eq : Kind.across (pass.kind s) (pass.kind t) = kind)
      (run : Over pass rest t part kinds added s') :
      Over pass rest s (c :: part) (kind :: kinds) (adds ++ added) s'

variable {pass : Pass σ} {s s' s'' : σ} {part part' rest added added' : List Char}
  {kinds kinds' : List Kind}

/-- The first of two runs sees what the second goes over. -/
theorem Over.append (first : pass.Over (part' ++ rest) s part kinds added s')
    (second : pass.Over rest s' part' kinds' added' s'') :
    pass.Over rest s (part ++ part') (kinds ++ kinds') (added ++ added') s'' := by
  induction first with
  | nil => exact second
  | cons _ goes next adds_eq kind_eq _ ih =>
    rw [← List.append_assoc] at next adds_eq
    rw [List.append_assoc]
    exact .cons _ goes next adds_eq kind_eq (ih second)

theorem Over.kinds_eq (run : pass.Over rest s part kinds added s') :
    pass.kinds s (part ++ rest) = kinds ++ pass.kinds s' rest := by
  induction run with
  | nil => rfl
  | cons _ goes next _ kind_eq _ ih =>
    rw [List.cons_append, Pass.kinds, if_neg (Bool.eq_false_iff.mp goes), next, kind_eq, ih]
    rfl

end Pass

/-- The first pass goes on behind a run. -/
theorem Pass.Over.argumentsFrom_eq {walk walk' : Walk} {part rest added : List Char}
    {kinds : List Kind} (run : walkPass.Over rest walk part kinds added walk')
    (before : List Char) :
    argumentsFrom walk before (part ++ rest) =
      argumentsFrom walk' (part.reverse ++ before) rest := by
  induction run generalizing before with
  | nil => rfl
  | @cons walk _ _ c _ _ _ _ _ goes next _ _ _ ih =>
    have goes : ¬ walk.closes c = true := Bool.eq_false_iff.mp goes
    have step : walk.step c _ = _ := next
    rw [List.cons_append, argumentsFrom, if_neg goes, step, ih, List.reverse_cons,
      List.append_assoc]
    rfl

/-- What a run of the second pass adds stands in front of the rest. -/
theorem Pass.Over.literalFrom_eq {reader reader' : Reader} {part rest added : List Char}
    {kinds : List Kind} (run : readerPass.Over rest reader part kinds added reader') :
    literalFrom reader (part ++ rest) = added ++ literalFrom reader' rest := by
  induction run with
  | nil => rfl
  | @cons reader _ _ c _ _ _ _ _ goes next adds_eq _ _ ih =>
    have goes : ¬ reader.stops c = true := Bool.eq_false_iff.mp goes
    have step : reader.step c _ = _ := next
    have adds : reader.added c _ = _ := adds_eq
    rw [List.cons_append, literalFrom, if_neg goes, step, adds, ih, List.append_assoc]

/-! ## The first pass over an item -/

/-- The lexeme of a literal between quotes. -/
def Quote.lexeme : Quote → Lexeme
  | .double => .string
  | .single => .character

/-- Characters that are taken along are what they were taken along for. -/
theorem walkPass_over_ahead (lexeme : Lexeme) (depth : Nat) (part rest : List Char) :
    walkPass.Over rest ⟨lexeme, depth, part.length⟩ part
      (List.replicate part.length (Walk.mk lexeme depth 1).kind) part ⟨lexeme, depth, 0⟩ := by
  induction part with
  | nil => exact .nil _
  | cons c part ih =>
    refine .cons [c] (t := ⟨lexeme, depth, part.length⟩) ?_ rfl rfl ?_ ih
    · simp [walkPass, Walk.closes]
    · cases lexeme <;> rfl

/-- The first pass stays in a literal over a part of its content. -/
theorem walkPass_over_part (quote : Quote) (depth : Nat) {part : LiteralPart}
    (h : part.FitsIn quote) (rest : List Char) :
    walkPass.Over rest ⟨quote.lexeme, depth, 0⟩ part.chars
      (List.replicate part.chars.length quote.kind) part.chars ⟨quote.lexeme, depth, 0⟩ := by
  cases part with
  | plain c =>
    obtain ⟨other, backslash⟩ := h
    refine .cons [c] ?_ ?_ rfl ?_ (.nil _)
    · cases quote <;> simp [walkPass, Walk.closes, Quote.lexeme]
    · cases quote
      · simp [walkPass, Walk.step, Quote.lexeme, Walk.stepLiteral, backslash,
          show c ≠ '"' from other]
      · simp [walkPass, Walk.step, Quote.lexeme, Walk.stepLiteral, backslash,
          show c ≠ '\'' from other]
    · cases quote <;> rfl
  | escaped c =>
    refine .cons ['\\'] (t := ⟨quote.lexeme, depth, 1⟩) ?_ ?_ rfl ?_ ?_
    · cases quote <;> rfl
    · cases quote <;> rfl
    · cases quote <;> rfl
    · have along := walkPass_over_ahead quote.lexeme depth [c] rest
      cases quote <;> exact along

/-- The first pass stays in a literal over its content. -/
theorem walkPass_over_content (quote : Quote) (depth : Nat) {content : List LiteralPart}
    (h : FitsBetween quote content) (rest : List Char) :
    walkPass.Over rest ⟨quote.lexeme, depth, 0⟩ (contentChars content)
      (List.replicate (contentChars content).length quote.kind) (contentChars content)
      ⟨quote.lexeme, depth, 0⟩ := by
  induction content with
  | nil => exact .nil _
  | cons part content ih =>
    rw [contentChars_cons, List.length_append, ← List.replicate_append_replicate]
    exact (walkPass_over_part quote depth (h part (by simp)) _).append
      (ih fun p hp => h p (by simp [hp]))

/-- A single character of code. -/
theorem walkPass_over_code {c : Char} {depth depth' : Nat} (h : (Item.code c).WellFormed)
    (nest : (Item.code c).nest depth = some depth') {rest : List Char}
    (slash : c = '/' → OpensNoComment rest) :
    walkPass.Over rest ⟨.code, depth, 0⟩ [c] [.code] [c] ⟨.code, depth', 0⟩ := by
  obtain ⟨double, single⟩ := h
  have step : (Walk.mk .code depth 0).closes c = false ∧
      (Walk.mk .code depth 0).step c rest = ⟨.code, depth', 0⟩ := by
    by_cases opening : c = '('
    · subst opening
      cases nest
      exact ⟨by simp [Walk.closes], rfl⟩
    · by_cases closing : c = ')'
      · subst closing
        by_cases hd : depth = 0
        · simp [Item.nest, hd] at nest
        · simp only [Item.nest, if_neg hd, Option.some.injEq] at nest
          subst nest
          exact ⟨by simp [Walk.closes, hd], rfl⟩
      · have same : (Item.code c).nest depth = some depth := by
          simp [Item.nest, opening, closing]
        rw [same] at nest
        cases nest
        refine ⟨by simp [Walk.closes, closing], ?_⟩
        by_cases hc : c = '/'
        · subst hc
          have none := commentLength_eq_zero_iff.mpr (slash rfl)
          simp [Walk.step, Walk.stepCode, none]
        · simp [Walk.step, Walk.stepCode, opening, closing, double, single, hc]
  exact .cons [c] step.1 step.2 rfl rfl (.nil _)

/-- The first pass reads a well-formed item as what it is. -/
theorem walkPass_over_item {item : Item} (h : item.WellFormed) {depth depth' : Nat}
    (nest : item.nest depth = some depth') {rest : List Char}
    (slash : item = .code '/' → OpensNoComment rest) :
    walkPass.Over rest ⟨.code, depth, 0⟩ item.chars item.kinds item.chars ⟨.code, depth', 0⟩ := by
  cases item with
  | code c => exact walkPass_over_code h nest fun hc => slash (by rw [hc])
  | literal quote content =>
    cases nest
    have close : walkPass.Over rest ⟨quote.lexeme, depth, 0⟩ [quote.char] [quote.kind] [quote.char]
        ⟨.code, depth, 0⟩ := by
      refine .cons [quote.char] ?_ ?_ rfl ?_ (.nil _)
      all_goals cases quote <;> rfl
    have inside := (walkPass_over_content quote depth h _).append close
    rw [Item.kinds_literal]
    refine .cons [quote.char] (t := ⟨quote.lexeme, depth, 0⟩) ?_ ?_ rfl ?_ inside
    all_goals cases quote <;> simp [walkPass, Quote.char, Walk.closes] <;> rfl
  | lineComment text =>
    cases nest
    have length := commentLength_lineComment h rest
    have along := walkPass_over_ahead .code depth ('/' :: (text ++ ['\n'])) rest
    refine .cons ['/'] ?_ ?_ rfl ?_ along
    · simp [walkPass, Walk.closes]
    · simpa [walkPass, Walk.step, Walk.stepCode] using length
    · rfl
  | blockComment text =>
    cases nest
    have length := commentLength_blockComment h rest
    have along := walkPass_over_ahead .code depth ('*' :: (text ++ ['*', '/'])) rest
    refine .cons ['/'] ?_ ?_ rfl ?_ along
    · simp [walkPass, Walk.closes]
    · simpa [walkPass, Walk.step, Walk.stepCode] using length
    · rfl

theorem OpensNoComment.append {text rest : List Char} (h : OpensNoComment text)
    (h' : OpensNoComment rest) : OpensNoComment (text ++ rest) := by
  cases text with
  | nil => exact h'
  | cons c text => exact h

theorem OpensNoComment.before {items : List Item} (h : OpensNoComment (spell items))
    {rest : List Char} (h' : items = [] → OpensNoComment rest) :
    OpensNoComment (spell items ++ rest) := by
  cases items with
  | nil => exact h' rfl
  | cons item items => cases item <;> exact h

/-- The first pass reads items as what they are, also in front of a comment. -/
theorem walkPass_over_lexed {items : List Item} (h : Lexed items) {depth depth' : Nat}
    (nest : nesting depth items = some depth') {rest : List Char}
    (clear : items.getLast? = some (.code '/') → OpensNoComment rest) :
    walkPass.Over rest ⟨.code, depth, 0⟩ (spell items) (kindsOf items) (spell items)
      ⟨.code, depth', 0⟩ := by
  induction items generalizing depth with
  | nil =>
    cases nest
    exact .nil _
  | cons item items ih =>
    obtain ⟨formed, slash, lexed⟩ := h
    obtain ⟨middle, first, others⟩ := Option.bind_eq_some_iff.mp nest
    have behind : item = .code '/' → OpensNoComment (spell items ++ rest) := by
      rintro rfl
      refine (slash rfl).before ?_
      rintro rfl
      exact clear rfl
    refine (walkPass_over_item formed first behind).append (ih lexed others fun last => clear ?_)
    rw [List.getLast?_cons, last]
    rfl

/-- The first pass reads items as what they are. -/
theorem walkPass_over_items {items : List Item} (h : Lexed items) {depth depth' : Nat}
    (nest : nesting depth items = some depth') {rest : List Char} (clear : OpensNoComment rest) :
    walkPass.Over rest ⟨.code, depth, 0⟩ (spell items) (kindsOf items) (spell items)
      ⟨.code, depth', 0⟩ :=
  walkPass_over_lexed h nest fun _ => clear

/-! ## Argument lists are spelled by items -/

theorem argumentsFrom_ahead_eq_none (lexeme : Lexeme) (depth : Nat) (before text : List Char) :
    argumentsFrom ⟨lexeme, depth, text.length⟩ before text = none := by
  have run := (walkPass_over_ahead lexeme depth text []).argumentsFrom_eq before
  rw [List.append_nil] at run
  rw [run, argumentsFrom]

/-- The first pass does not come out of what a text leaves open. -/
theorem argumentsFrom_of_leftOpen {text : List Char} (h : LeftOpen text) (depth : Nat)
    (before : List Char) : argumentsFrom ⟨.code, depth, 0⟩ before text = none := by
  have of_comment : ∀ rest, commentLength rest = rest.length →
      argumentsFrom ⟨.code, depth, 0⟩ before ('/' :: rest) = none := by
    intro rest all
    have step : (Walk.mk .code depth 0).step '/' rest = ⟨.code, depth, rest.length⟩ := by
      simp [Walk.step, Walk.stepCode, all]
    rw [argumentsFrom, if_neg (by simp [Walk.closes]), step, argumentsFrom_ahead_eq_none]
  cases h with
  | parenthesis => rfl
  | @literal quote content tail fits cut =>
    have step : (Walk.mk .code depth 0).step quote.char (contentChars content ++ tail)
        = ⟨quote.lexeme, depth, 0⟩ := by
      cases quote <;> rfl
    rw [argumentsFrom, if_neg (by cases quote <;> simp [Walk.closes, Quote.char]), step,
      (walkPass_over_content quote depth fits tail).argumentsFrom_eq]
    rcases cut with rfl | rfl
    · rfl
    · cases quote <;> simp [argumentsFrom, Walk.closes]
  | lineComment unended =>
    exact of_comment _ (congrArg (· + 1) (lineCommentLength_of_unended unended))
  | blockComment unended =>
    refine of_comment _ (congrArg (· + 1) (blockCommentLength_of_unended fun inside => ?_))
    rcases List.infix_cons_iff.mp inside with first | later
    · exact absurd (List.cons_prefix_cons.mp first).1 (by decide)
    · exact unended later

/-- The first pass comes to no end if the text ends before the parentheses around it do. -/
theorem argumentsFrom_of_endsOpen {depth : Nat} {text : List Char} (h : EndsOpen depth text)
    (before : List Char) : argumentsFrom ⟨.code, depth, 0⟩ before text = none := by
  obtain ⟨items, tail, depth', lexed, nest, clear, leftOpen, rfl⟩ := h
  rw [(walkPass_over_lexed lexed nest clear).argumentsFrom_eq]
  exact argumentsFrom_of_leftOpen leftOpen depth' _

/-- The first pass comes to the closing parenthesis behind items. -/
theorem argumentsFrom_spell {items : List Item} (h : Lexed items) {depth : Nat}
    (nest : nesting depth items = some 0) (before rest : List Char) :
    argumentsFrom ⟨.code, depth, 0⟩ before (spell items ++ ')' :: rest)
      = some (before.reverse ++ spell items) := by
  have closing : OpensNoComment (')' :: rest) := ⟨by simp, by simp⟩
  rw [(walkPass_over_items h nest closing).argumentsFrom_eq, argumentsFrom, if_pos (by rfl),
    List.reverse_append, List.reverse_reverse]

/-- What the first pass finds between the parentheses is the spelling of items. -/
theorem exists_items {depth : Nat} {before text arguments : List Char}
    (h : argumentsFrom ⟨.code, depth, 0⟩ before text = some arguments) :
    ∃ (items : List Item) (rest : List Char), Lexed items ∧ nesting depth items = some 0 ∧
      text = spell items ++ ')' :: rest ∧ arguments = before.reverse ++ spell items := by
  rcases items_cases depth text with ⟨items, rest, lexed, nest, rfl⟩ | ends
  · rw [argumentsFrom_spell lexed nest, Option.some.injEq] at h
    exact ⟨items, rest, lexed, nest, rfl, h.symm⟩
  · rw [argumentsFrom_of_endsOpen ends] at h
    exact absurd h (by simp)

/-! ## The second pass over an item -/

/-- Characters that are taken along add nothing. -/
theorem readerPass_over_ahead (inQuotes : Bool) (passing : Kind) (h : passing ≠ .code)
    (part rest : List Char) :
    readerPass.Over rest ⟨inQuotes, part.length, passing⟩ part
      (List.replicate part.length passing) [] ⟨inQuotes, 0, passing⟩ := by
  induction part with
  | nil => exact .nil _
  | cons c part ih =>
    refine .cons [] (t := ⟨inQuotes, part.length, passing⟩) ?_ rfl ?_ ?_ ih
    · simp [readerPass, Reader.stops]
    · simp [readerPass, Reader.added]
    · simp [readerPass, Reader.kind, Kind.across, h]

/-- The second pass takes the text of a part of a string literal. -/
theorem readerPass_over_part {part : LiteralPart} (h : part.FitsIn .double) (rest : List Char) :
    readerPass.Over rest ⟨true, 0, .string⟩ part.chars
      (List.replicate part.chars.length .string) part.text ⟨true, 0, .string⟩ := by
  cases part with
  | plain c =>
    obtain ⟨other, backslash⟩ := h
    have other : c ≠ '"' := other
    refine .cons [c] ?_ ?_ ?_ rfl (.nil _)
    · simp [readerPass, Reader.stops]
    · simp [readerPass, Reader.step, other, backslash]
    · simp [readerPass, Reader.added, Reader.quotedText, other, backslash]
  | escaped c =>
    have along := readerPass_over_ahead true .string nofun [c] rest
    have run : readerPass.Over rest ⟨true, 0, .string⟩ ['\\', c] [.string, .string]
        ((LiteralPart.escaped c).text ++ []) ⟨true, 0, .string⟩ := .cons _ rfl rfl rfl rfl along
    rwa [List.append_nil] at run

/-- The second pass takes the text of the content of a string literal. -/
theorem readerPass_over_content {content : List LiteralPart} (h : FitsBetween .double content)
    (rest : List Char) :
    readerPass.Over rest ⟨true, 0, .string⟩ (contentChars content)
      (List.replicate (contentChars content).length .string) (content.flatMap LiteralPart.text)
      ⟨true, 0, .string⟩ := by
  induction content with
  | nil => exact .nil _
  | cons part content ih =>
    rw [contentChars_cons, List.length_append, ← List.replicate_append_replicate]
    exact (readerPass_over_part (h part (by simp)) _).append (ih fun p hp => h p (by simp [hp]))

/-- The second pass reads a well-formed item as what it is, but for the comma that it stops at. -/
theorem readerPass_over_item {item : Item} (h : item.WellFormed) (comma : item ≠ .code ',')
    (passing : Kind) {rest : List Char} (slash : item = .code '/' → OpensNoComment rest) :
    ∃ passing', readerPass.Over rest ⟨false, 0, passing⟩ item.chars item.kinds item.text
      ⟨false, 0, passing'⟩ := by
  cases item with
  | code c =>
    obtain ⟨double, single⟩ := h
    have other : c ≠ ',' := fun hc => comma (by rw [hc])
    by_cases hc : c = '/'
    · subst hc
      have none := commentLength_eq_zero_iff.mpr (slash rfl)
      refine ⟨.comment, .cons [] rfl ?_ rfl rfl (.nil _)⟩
      simp [readerPass, Reader.step, none]
    · refine ⟨passing, .cons [] ?_ ?_ ?_ rfl (.nil _)⟩
      · simp [readerPass, Reader.stops, other]
      · simp [readerPass, Reader.step, double, single, hc]
      · simp [readerPass, Reader.added]
  | literal quote content =>
    cases quote with
    | double =>
      have close : readerPass.Over rest ⟨true, 0, .string⟩ ['"'] [.string] [] ⟨false, 0, .code⟩ :=
        .cons [] rfl rfl rfl rfl (.nil _)
      have inside := (readerPass_over_content h _).append close
      rw [List.append_nil] at inside
      rw [Item.kinds_literal]
      exact ⟨.code, .cons [] rfl rfl rfl rfl inside⟩
    | single =>
      have along := readerPass_over_ahead false .character (by simp)
        (contentChars content ++ ['\'']) rest
      refine ⟨.character, .cons [] rfl ?_ rfl ?_ along⟩
      · exact congrArg (Reader.mk false · .character) (characterLength_content h rest)
      · simp [readerPass, Reader.kind, Kind.across, Item.kind, Quote.kind]
  | lineComment text =>
    have along := readerPass_over_ahead false .comment (by simp)
      ('/' :: (text ++ ['\n'])) rest
    refine ⟨.comment, .cons [] rfl ?_ rfl rfl along⟩
    exact congrArg (Reader.mk false · .comment) (commentLength_lineComment h rest)
  | blockComment text =>
    have along := readerPass_over_ahead false .comment (by simp)
      ('*' :: (text ++ ['*', '/'])) rest
    refine ⟨.comment, .cons [] rfl ?_ rfl rfl along⟩
    exact congrArg (Reader.mk false · .comment) (commentLength_blockComment h rest)

/-- The second pass reads items as what they are, up to a comma. -/
theorem readerPass_over_items {items : List Item} (h : Lexed items)
    (comma : .code ',' ∉ items) (passing : Kind) {rest : List Char} (clear : OpensNoComment rest) :
    ∃ passing', readerPass.Over rest ⟨false, 0, passing⟩ (spell items) (kindsOf items)
      (textOf items) ⟨false, 0, passing'⟩ := by
  induction items generalizing passing with
  | nil => exact ⟨passing, .nil _⟩
  | cons item items ih =>
    obtain ⟨formed, slash, lexed⟩ := h
    simp only [List.mem_cons, not_or] at comma
    obtain ⟨middle, first⟩ := readerPass_over_item formed (Ne.symm comma.1) passing
      fun hc => (slash hc).append clear
    obtain ⟨last, others⟩ := ih lexed comma.2 middle
    exact ⟨last, first.append others⟩

/-! ## Both passes -/

/-- What the first pass takes the characters for that it visits. -/
def argumentKinds (text : List Char) : List Kind :=
  walkPass.kinds .start text

/-- What the second pass takes the characters for that it visits. -/
def literalKinds (arguments : List Char) : List Kind :=
  readerPass.kinds .start arguments

theorem Lexed.left {items items' : List Item} (h : Lexed (items ++ items')) : Lexed items := by
  induction items with
  | nil => trivial
  | cons item items ih =>
    obtain ⟨formed, slash, lexed⟩ := h
    have slash : item = .code '/' → OpensNoComment (spell (items ++ items')) := slash
    rw [spell_append] at slash
    exact ⟨formed, fun hc => (slash hc).left, ih lexed⟩

/-- The items in front of the first comma of code. -/
def firstArgument (items : List Item) : List Item :=
  items.takeWhile (· ≠ .code ',')

theorem not_mem_firstArgument (items : List Item) : .code ',' ∉ firstArgument items := by
  intro inside
  have kept := List.all_eq_true.mp List.all_takeWhile _ inside
  simp at kept

/-- What follows the first argument is empty or begins with a comma. -/
theorem firstArgument_split (items : List Item) :
    ∃ behind, items = firstArgument items ++ behind ∧
      (behind = [] ∨ ∃ more, behind = .code ',' :: more) := by
  induction items with
  | nil => exact ⟨[], rfl, .inl rfl⟩
  | cons item items ih =>
    by_cases comma : item = .code ','
    · subst comma
      exact ⟨.code ',' :: items, rfl, .inr ⟨items, rfl⟩⟩
    · obtain ⟨behind, split, stop⟩ := ih
      refine ⟨behind, ?_, stop⟩
      rw [firstArgument, List.takeWhile_cons_of_pos (by simpa using comma), List.cons_append]
      exact congrArg _ split

/-- An argument list is the spelling of items, and both passes read it as such: the first takes
every character for what it is in its item, and so does the second, which goes over the items in
front of the first comma of code and comes to the text of the string literals among them. -/
theorem passes_agree {text arguments : List Char} (h : argumentList? text = some arguments) :
    literalKinds arguments <+: argumentKinds text ∧
    ∃ items : List Item, Lexed items ∧ spell items = arguments ∧
      argumentKinds text = kindsOf items ∧
      literalKinds arguments = kindsOf (firstArgument items) ∧
      firstLiteral arguments = textOf (firstArgument items) := by
  obtain ⟨items, rest, lexed, nest, rfl, rfl⟩ := exists_items h
  have closing : OpensNoComment (')' :: rest) := ⟨by simp, by simp⟩
  have walked := (walkPass_over_items lexed nest closing).kinds_eq
  have ended : walkPass.kinds ⟨.code, 0, 0⟩ (')' :: rest) = [] := rfl
  rw [ended, List.append_nil] at walked
  obtain ⟨behind, split, stop⟩ := firstArgument_split items
  have clear : OpensNoComment (spell behind) := by
    rcases stop with rfl | ⟨more, rfl⟩
    · exact ⟨nofun, nofun⟩
    · exact ⟨by simp [Item.chars], by simp [Item.chars]⟩
  obtain ⟨passing, run⟩ := readerPass_over_items (Lexed.left (split ▸ lexed))
    (not_mem_firstArgument items) .code clear
  have stopped : readerPass.kinds ⟨false, 0, passing⟩ (spell behind) = [] ∧
      literalFrom ⟨false, 0, passing⟩ (spell behind) = [] := by
    rcases stop with rfl | ⟨more, rfl⟩
    · exact ⟨rfl, rfl⟩
    · exact ⟨rfl, rfl⟩
  have read : literalKinds (spell items) = kindsOf (firstArgument items) ∧
      firstLiteral (spell items) = textOf (firstArgument items) := by
    have kinds := run.kinds_eq
    have text := run.literalFrom_eq
    rw [← spell_append, ← split, stopped.1, List.append_nil] at kinds
    rw [← spell_append, ← split, stopped.2, List.append_nil] at text
    exact ⟨kinds, text⟩
  refine ⟨?_, items, lexed, rfl, walked, read⟩
  rw [List.reverse_nil, List.nil_append, read.1]
  exact ⟨kindsOf behind, by rw [← kindsOf_append, ← split]; exact walked.symm⟩

/-- A quote in a comment, a comma in a literal, and an argument behind the first one. -/
theorem passes_agree_example :
    argumentList? "/* \" */ \"a,\\n\" + 'x', b) c".toList =
        some "/* \" */ \"a,\\n\" + 'x', b".toList ∧
      firstLiteral "/* \" */ \"a,\\n\" + 'x', b".toList = "a,\\n".toList ∧
      literalKinds "/* \" */ \"a,\\n\" + 'x', b".toList
        <+: argumentKinds "/* \" */ \"a,\\n\" + 'x', b) c".toList :=
  ⟨by decide, by decide, (passes_agree (by decide)).1⟩

end LocaleKeys
