import LocaleKeys.Proofs.CallSite.Scan
import LocaleKeys.Proofs.LineEndings

/-!
# Line endings in source code

Both passes over a text with carriage returns (`Text.withReturns`) do what they do over the text
itself. A carriage return in front of a newline changes no state, except that what a character
takes along may be longer: a comment or a character literal by the carriage returns in it, while a
backslash takes the carriage return and leaves the newline to the literal. `Walk.withReturns` and
`Reader.withReturns` are the states that stand at the same place, one step of each pass keeps them
(`Walk.step_withReturns`, `Reader.step_withReturns`), and the calls and what they come to follow
(`scan_withReturns`).
-/

namespace LocaleKeys

open Text (withReturns)

/-! ## What is taken along -/

/-- The length of the first `n` characters of a text with their carriage returns. -/
def Text.lengthWithReturns (n : Nat) (text : List Char) : Nat :=
  (withReturns (text.take n)).length

namespace Text

@[simp]
theorem lengthWithReturns_zero (text : List Char) : lengthWithReturns 0 text = 0 := rfl

theorem lengthWithReturns_newline (n : Nat) (text : List Char) :
    lengthWithReturns (n + 1) ('\n' :: text) = lengthWithReturns n text + 2 := rfl

theorem lengthWithReturns_cons {c : Char} (h : c ≠ '\n') (n : Nat) (text : List Char) :
    lengthWithReturns (n + 1) (c :: text) = lengthWithReturns n text + 1 := by
  rw [lengthWithReturns, List.take_succ_cons, withReturns_cons h]
  rfl

end Text

open Text (lengthWithReturns)

theorem lineCommentLength_withReturns (text : List Char) :
    lineCommentLength (withReturns text) = lengthWithReturns (lineCommentLength text) text := by
  induction text with
  | nil => rfl
  | cons c rest ih =>
    by_cases hc : c = '\n'
    · subst hc
      rfl
    · rw [Text.withReturns_cons hc, lineCommentLength, lineCommentLength, if_neg hc, if_neg hc, ih,
        Text.lengthWithReturns_cons hc]

theorem blockCommentLength_withReturns (previous : Char) (text : List Char) :
    blockCommentLength previous (withReturns text)
      = lengthWithReturns (blockCommentLength previous text) text := by
  induction text generalizing previous with
  | nil => rfl
  | cons c rest ih =>
    by_cases hc : c = '\n'
    · subst hc
      simp [blockCommentLength, ih, Text.lengthWithReturns_newline]
    · rw [Text.withReturns_cons hc, blockCommentLength, blockCommentLength]
      split
      · rw [Text.lengthWithReturns_cons hc, Text.lengthWithReturns_zero]
      · rw [ih, Text.lengthWithReturns_cons hc]

theorem commentLength_withReturns (text : List Char) :
    commentLength (withReturns text) = lengthWithReturns (commentLength text) text := by
  match text with
  | [] => rfl
  | c :: rest =>
    by_cases line : c = '/'
    · subst line
      rw [Text.withReturns_cons (by decide), commentLength, commentLength,
        lineCommentLength_withReturns, Text.lengthWithReturns_cons (by decide)]
    · by_cases block : c = '*'
      · subst block
        rw [Text.withReturns_cons (by decide), commentLength, commentLength,
          blockCommentLength_withReturns, Text.lengthWithReturns_cons (by decide)]
      · have none : ∀ d more, d ≠ '/' → d ≠ '*' → commentLength (d :: more) = 0 := by
          intro d more line block
          simp [commentLength, line, block]
        rw [none c rest line block]
        by_cases hc : c = '\n'
        · subst hc
          exact none '\r' _ (by decide) (by decide)
        · rw [Text.withReturns_cons hc]
          exact none c _ line block

theorem characterLength_withReturns (text : List Char) :
    characterLength (withReturns text) = lengthWithReturns (characterLength text) text := by
  fun_induction characterLength text with
  | case1 => rfl
  | case2 c rest ih =>
    rw [Text.withReturns_cons (by decide), Text.lengthWithReturns_cons (by decide)]
    by_cases hc : c = '\n'
    · subst hc
      simp [characterLength, ih, Text.lengthWithReturns_newline]
    · rw [Text.withReturns_cons hc, characterLength, ih, Text.lengthWithReturns_cons hc]
  | case3 rest alone =>
    rw [Text.withReturns_cons (by decide), Text.lengthWithReturns_cons (by decide)]
    simp [characterLength]
  | case4 c rest alone other ih =>
    by_cases newline : c = '\n'
    · subst newline
      simp [characterLength, ih, Text.lengthWithReturns_newline]
    · rw [Text.withReturns_cons newline, Text.lengthWithReturns_cons newline, ← ih,
        characterLength.eq_3, if_neg other]
      rintro d more rfl split
      cases rest with
      | nil => cases split
      | cons d rest => exact alone d rest rfl rfl

/-! ## The first pass -/

namespace Walk

/-- In a literal only the character behind a backslash is taken along. -/
def Orderly (walk : Walk) : Prop :=
  walk.lexeme ≠ .code → walk.ahead ≤ 1

/-- The state at the same place, before `text`, of the text with carriage returns. -/
def withReturns (walk : Walk) (text : List Char) : Walk :=
  { walk with
    ahead := if walk.lexeme = .code then lengthWithReturns walk.ahead text else walk.ahead }

theorem orderly_stepLiteral (lexeme : Lexeme) (depth : Nat) (quote c : Char) :
    (stepLiteral ⟨lexeme, depth, 0⟩ quote c).Orderly := by
  intro literal
  unfold stepLiteral
  split
  · exact Nat.le_refl 1
  · split <;> exact Nat.zero_le 1

-- Only a slash takes something along in code, and the walk stays in code.
theorem orderly_stepCode (depth : Nat) (c : Char) (rest : List Char) :
    (stepCode ⟨.code, depth, 0⟩ c rest).Orderly := by
  unfold stepCode
  repeat' split
  all_goals first
    | exact fun literal => absurd rfl literal
    | exact fun _ => Nat.zero_le 1

theorem Orderly.step {walk : Walk} (h : walk.Orderly) (c : Char) (rest : List Char) :
    (walk.step c rest).Orderly := by
  obtain ⟨lexeme, depth, ahead⟩ := walk
  cases ahead with
  | succ n => exact fun literal => Nat.le_of_lt (h literal)
  | zero =>
    cases lexeme with
    | code => exact orderly_stepCode depth c rest
    | string => exact orderly_stepLiteral .string depth '"' c
    | character => exact orderly_stepLiteral .character depth '\'' c

theorem closes_withReturns (walk : Walk) {c : Char} (h : c ≠ '\n') (rest : List Char) :
    (walk.withReturns (c :: rest)).closes c = walk.closes c := by
  obtain ⟨lexeme, depth, ahead⟩ := walk
  cases ahead with
  | zero => simp [closes, withReturns]
  | succ n => cases lexeme <;> simp [closes, withReturns, Text.lengthWithReturns_cons h]

theorem not_closes_lineEnd (walk : Walk) : walk.closes '\n' = false ∧ walk.closes '\r' = false := by
  simp [closes]

theorem stepCode_withReturns (depth : Nat) (c : Char) (rest : List Char) :
    stepCode ⟨.code, depth, 0⟩ c (Text.withReturns rest)
      = (stepCode ⟨.code, depth, 0⟩ c rest).withReturns rest := by
  unfold stepCode
  repeat' split
  all_goals simp [withReturns, commentLength_withReturns]

theorem stepLiteral_withReturns {lexeme : Lexeme} (literal : lexeme ≠ .code) (depth : Nat)
    (quote c : Char) (rest : List Char) :
    stepLiteral ⟨lexeme, depth, 0⟩ quote c
      = (stepLiteral ⟨lexeme, depth, 0⟩ quote c).withReturns rest := by
  unfold stepLiteral withReturns
  split
  · rfl
  · split <;> rfl

/-- A character that ends no line takes both walks to the same place. -/
theorem step_withReturns (walk : Walk) {c : Char} (h : c ≠ '\n') (rest : List Char) :
    (walk.withReturns (c :: rest)).step c (Text.withReturns rest)
      = (walk.step c rest).withReturns rest := by
  obtain ⟨lexeme, depth, ahead⟩ := walk
  cases ahead with
  | zero =>
    cases lexeme with
    | code => exact stepCode_withReturns depth c rest
    | string => exact stepLiteral_withReturns Lexeme.noConfusion depth '"' c rest
    | character => exact stepLiteral_withReturns Lexeme.noConfusion depth '\'' c rest
  | succ n =>
    cases lexeme <;> simp [step, withReturns, Text.lengthWithReturns_cons h]

/-- The end of a line takes both walks to the same place, the one in two steps. What a backslash
takes along is the newline for one of them and the carriage return for the other. -/
theorem step_newline_withReturns {walk : Walk} (h : walk.Orderly) (rest : List Char) :
    ((walk.withReturns ('\n' :: rest)).step '\r' ('\n' :: Text.withReturns rest)).step '\n'
        (Text.withReturns rest)
      = (walk.step '\n' rest).withReturns rest := by
  obtain ⟨lexeme, depth, ahead⟩ := walk
  cases ahead with
  | zero => cases lexeme <;> rfl
  | succ n =>
    cases lexeme with
    | code => rfl
    | string =>
      obtain rfl : n = 0 := by simpa using h nofun
      rfl
    | character =>
      obtain rfl : n = 0 := by simpa using h nofun
      rfl

end Walk

/-- The walks come to the same closing parenthesis. -/
theorem argumentsFrom_withReturns {walk : Walk} (h : walk.Orderly) (before text : List Char) :
    argumentsFrom (walk.withReturns text) (withReturns before.reverse).reverse (withReturns text)
      = (argumentsFrom walk before text).map withReturns := by
  induction text generalizing walk before with
  | nil => rfl
  | cons c rest ih =>
    have next := ih (h.step c rest) (c :: before)
    rw [List.reverse_cons, Text.withReturns_append, List.reverse_append] at next
    by_cases hc : c = '\n'
    · subst hc
      rw [Text.withReturns_newline, argumentsFrom, argumentsFrom, argumentsFrom,
        (Walk.not_closes_lineEnd _).1, (Walk.not_closes_lineEnd _).2,
        (Walk.not_closes_lineEnd _).1, Walk.step_newline_withReturns h]
      exact next
    · rw [Text.withReturns_cons hc, Text.withReturns_nil] at next
      rw [Text.withReturns_cons hc, argumentsFrom, argumentsFrom, Walk.closes_withReturns walk hc,
        Walk.step_withReturns walk hc]
      split
      · rw [List.reverse_reverse]
        rfl
      · exact next

theorem argumentList?_withReturns (text : List Char) :
    argumentList? (withReturns text) = (argumentList? text).map withReturns := by
  have start : Walk.start.Orderly := fun literal => absurd rfl literal
  exact argumentsFrom_withReturns start [] text

/-! ## The second pass -/

namespace Reader

/-- In a string literal only the character behind a backslash is taken along. -/
def Orderly (reader : Reader) : Prop :=
  reader.inQuotes → reader.ahead ≤ 1

/-- The state at the same place, before `text`, of the text with carriage returns. -/
def withReturns (reader : Reader) (text : List Char) : Reader :=
  { reader with
    ahead := if reader.inQuotes then reader.ahead else lengthWithReturns reader.ahead text }

/-- The newline that a backslash leaves to the literal because it takes the carriage return. -/
def left (reader : Reader) (text : List Char) : List Char :=
  if reader.inQuotes ∧ reader.ahead = 1 ∧ text.head? = some '\n' then ['\n'] else []

theorem left_of_ahead_ne {reader : Reader} (h : reader.inQuotes → reader.ahead ≠ 1)
    (text : List Char) : reader.left text = [] :=
  if_neg fun ⟨quotes, one, _⟩ => h quotes one

theorem left_cons {c : Char} (h : c ≠ '\n') (reader : Reader) (rest : List Char) :
    reader.left (c :: rest) = [] :=
  if_neg fun ⟨_, _, newline⟩ => h (Option.some.inj newline)

theorem step_quoted (passing : Kind) (c : Char) (rest : List Char) :
    step ⟨true, 0, passing⟩ c rest =
      if c = '\\' then ⟨true, 1, .string⟩
      else if c = '"' then ⟨false, 0, .code⟩
      else ⟨true, 0, passing⟩ := rfl

theorem step_code (passing : Kind) (c : Char) (rest : List Char) :
    step ⟨false, 0, passing⟩ c rest =
      if c = '"' then ⟨true, 0, .string⟩
      else if c = '\'' then ⟨false, characterLength rest, .character⟩
      else if c = '/' then ⟨false, commentLength rest, .comment⟩
      else ⟨false, 0, passing⟩ := rfl

theorem Orderly.step {reader : Reader} (h : reader.Orderly) (c : Char) (rest : List Char) :
    (reader.step c rest).Orderly := by
  obtain ⟨inQuotes, ahead, passing⟩ := reader
  cases ahead with
  | succ n => exact fun quotes => Nat.le_of_lt (h quotes)
  | zero =>
    cases inQuotes with
    | true =>
      rw [step_quoted]
      repeat' split
      all_goals simp [Orderly]
    | false =>
      rw [step_code]
      repeat' split
      all_goals simp [Orderly]

theorem stops_withReturns (reader : Reader) {c : Char} (h : c ≠ '\n') (rest : List Char) :
    (reader.withReturns (c :: rest)).stops c = reader.stops c := by
  obtain ⟨inQuotes, ahead, passing⟩ := reader
  cases ahead with
  | zero => cases inQuotes <;> rfl
  | succ n => cases inQuotes <;> simp [stops, withReturns, Text.lengthWithReturns_cons h]

theorem not_stops_lineEnd (reader : Reader) :
    reader.stops '\n' = false ∧ reader.stops '\r' = false := by
  simp [stops]

/-- A character that ends no line takes both readers to the same place. -/
theorem step_withReturns (reader : Reader) {c : Char} (h : c ≠ '\n') (rest : List Char) :
    (reader.withReturns (c :: rest)).step c (Text.withReturns rest)
      = (reader.step c rest).withReturns rest := by
  obtain ⟨inQuotes, ahead, passing⟩ := reader
  cases ahead with
  | succ n => cases inQuotes <;> simp [step, withReturns, Text.lengthWithReturns_cons h]
  | zero =>
    cases inQuotes with
    | true =>
      rw [step_quoted]
      change step ⟨true, 0, passing⟩ c _ = _
      rw [step_quoted]
      repeat' split
      all_goals rfl
    | false =>
      rw [step_code]
      change step ⟨false, 0, passing⟩ c _ = _
      rw [step_code, characterLength_withReturns, commentLength_withReturns]
      repeat' split
      all_goals rfl

/-- The end of a line takes both readers to the same place, the one in two steps. -/
theorem step_newline_withReturns {reader : Reader} (h : reader.Orderly) (rest : List Char) :
    ((reader.withReturns ('\n' :: rest)).step '\r' ('\n' :: Text.withReturns rest)).step '\n'
        (Text.withReturns rest)
      = (reader.step '\n' rest).withReturns rest := by
  obtain ⟨inQuotes, ahead, passing⟩ := reader
  cases ahead with
  | zero => cases inQuotes <;> rfl
  | succ n =>
    cases inQuotes with
    | false => rfl
    | true =>
      obtain rfl : n = 0 := by simpa using h rfl
      rfl

/-- A backslash takes the carriage return of a newline along, and the newline is left. -/
theorem quotedText_backslash (rest : List Char) :
    quotedText '\\' (Text.withReturns rest) ++ left ⟨true, 1, .string⟩ rest
      = Text.withReturns (quotedText '\\' rest) := by
  cases rest with
  | nil => rfl
  | cons next rest =>
    by_cases newline : next = '\n'
    · subst newline
      rfl
    · rw [Text.withReturns_cons newline, left_cons newline, List.append_nil]
      by_cases quote : next = '"'
      · subst quote
        rfl
      · simp [quotedText, quote, Text.withReturns_cons, newline]

/-- What a character adds, together with the newline that it leaves to the literal. -/
theorem added_withReturns {reader : Reader} (h : reader.Orderly) {c : Char} (hc : c ≠ '\n')
    (rest : List Char) :
    (reader.withReturns (c :: rest)).added c (Text.withReturns rest)
        ++ (reader.step c rest).left rest
      = Text.withReturns (reader.added c rest) := by
  obtain ⟨inQuotes, ahead, passing⟩ := reader
  cases ahead with
  | succ n =>
    have kept : (step ⟨inQuotes, n + 1, passing⟩ c rest).left rest = [] := by
      apply left_of_ahead_ne
      intro quotes
      have first : n + 1 ≤ 1 := h quotes
      show n ≠ 1
      omega
    rw [kept]
    cases inQuotes <;> simp [added, withReturns]
  | zero =>
    cases inQuotes with
    | false =>
      have kept : (step ⟨false, 0, passing⟩ c rest).left rest = [] := by
        apply left_of_ahead_ne
        rw [step_code]
        repeat' split
        all_goals simp
      rw [kept]
      simp [added, withReturns]
    | true =>
      show quotedText c _ ++ _ = Text.withReturns (quotedText c rest)
      rw [step_quoted]
      by_cases escape : c = '\\'
      · subst escape
        exact quotedText_backslash rest
      · rw [if_neg escape, left_of_ahead_ne (by split <;> simp), List.append_nil]
        unfold quotedText
        rw [if_neg escape, if_neg escape]
        split
        · rfl
        · exact (Text.withReturns_cons hc []).symm

/-- The end of a line adds itself to a literal, or what a backslash has left of it. -/
theorem added_newline_withReturns {reader : Reader} (h : reader.Orderly) (rest : List Char) :
    (reader.withReturns ('\n' :: rest)).added '\r' ('\n' :: Text.withReturns rest)
        ++ (((reader.withReturns ('\n' :: rest)).step '\r' ('\n' :: Text.withReturns rest)).added
          '\n' (Text.withReturns rest) ++ (reader.step '\n' rest).left rest)
      = reader.left ('\n' :: rest) ++ Text.withReturns (reader.added '\n' rest) := by
  obtain ⟨inQuotes, ahead, passing⟩ := reader
  cases ahead with
  | zero => cases inQuotes <;> rfl
  | succ n =>
    cases inQuotes with
    | false => rfl
    | true =>
      obtain rfl : n = 0 := by simpa using h rfl
      rfl

end Reader

/-- The readers add the same, but for the carriage returns and what is left from before. -/
theorem literalFrom_withReturns {reader : Reader} (h : reader.Orderly) (text : List Char) :
    literalFrom (reader.withReturns text) (withReturns text)
      = reader.left text ++ withReturns (literalFrom reader text) := by
  induction text generalizing reader with
  | nil => simp [literalFrom, Reader.left]
  | cons c rest ih =>
    have next := ih (h.step c rest)
    by_cases hc : c = '\n'
    · subst hc
      have added := Reader.added_newline_withReturns h rest
      rw [Text.withReturns_newline, literalFrom, literalFrom, literalFrom]
      simp only [(Reader.not_stops_lineEnd _).1, (Reader.not_stops_lineEnd _).2, Bool.false_eq_true,
        if_false, Reader.step_newline_withReturns h, next]
      rw [Text.withReturns_append, ← List.append_assoc (reader.left _), ← added]
      simp only [List.append_assoc]
    · have added := Reader.added_withReturns h hc rest
      rw [Text.withReturns_cons hc, literalFrom, literalFrom, Reader.stops_withReturns reader hc,
        Reader.step_withReturns reader hc, Reader.left_cons hc, next]
      split
      · rfl
      · rw [Text.withReturns_append, ← added, List.nil_append, List.append_assoc]

theorem firstLiteral_withReturns (arguments : List Char) :
    firstLiteral (withReturns arguments) = withReturns (firstLiteral arguments) := by
  have start : Reader.start.Orderly := fun quotes => absurd quotes (by decide)
  exact literalFrom_withReturns start arguments

/-! ## The scan -/

/-- The occurrence of the key with a carriage return in front of each newline. -/
def KeyOccurrence.withReturns (o : KeyOccurrence) : KeyOccurrence :=
  { o with key := o.key.withReturns }

/-- The malformed call, whose key has a carriage return in front of each newline. -/
def ExtractionError.withReturns (e : ExtractionError) : ExtractionError :=
  match e.cause with
  | .unbalancedParentheses _ => e
  | .unusableKey key defect => ⟨e.position, .unusableKey (Key.mk key).withReturns.text defect⟩

namespace CallSite

/-- A call may have its line endings where it may have white space. -/
theorem afterOpening?_withReturns (bundle : Bundle) (text : List Char) :
    afterOpening? bundle (withReturns text) = (afterOpening? bundle text).map withReturns := by
  have name : '\n' ∉ className ∧ '\r' ∉ className := by decide
  have dot : '\n' ∉ ['.'] ∧ '\r' ∉ ['.'] := by decide
  have method : '\n' ∉ bundle.method.toList ∧ '\r' ∉ bundle.method.toList := by
    cases bundle <;> decide
  have opening : '\n' ∉ ['('] ∧ '\r' ∉ ['('] := by decide
  simp only [afterOpening?, bind, Text.dropWhile_isSpace_withReturns,
    Text.afterWord?_withReturns name, Text.afterWord?_withReturns dot,
    Text.afterWord?_withReturns method, Text.afterWord?_withReturns opening, Option.bind_map,
    Option.map_bind, Function.comp_def]

theorem snippet_withReturns {call : List Char} (h : '\r' ∉ call) :
    snippet (withReturns call) = snippet call := by
  rw [snippet, snippet, Text.lines_withReturns h]

namespace Call

/-- The call in the text with carriage returns. -/
def withReturns (call : Call) : Call :=
  ⟨call.cursor.withReturns, Text.withReturns call.text, Text.withReturns call.opened⟩

/-- What a call comes to does not depend on its line endings, but for those in its key. -/
theorem occurrence?_withReturns {call : Call} (h : '\r' ∉ call.text) :
    call.withReturns.occurrence? = match call.occurrence? with
      | .ok found => .ok (found.map KeyOccurrence.withReturns)
      | .error e => .error e.withReturns := by
  have list : argumentList? call.withReturns.opened
      = (argumentList? call.opened).map Text.withReturns := argumentList?_withReturns call.opened
  have line : call.withReturns.cursor.line = call.cursor.line :=
    Cursor.line_withReturns call.cursor
  have quoted : snippet call.withReturns.text = snippet call.text := snippet_withReturns h
  unfold occurrence?
  rw [list, line, quoted]
  cases argumentList? call.opened with
  | none => rfl
  | some arguments =>
    have key : Key.mk (String.ofList (firstLiteral (Text.withReturns arguments)))
        = (Key.mk (String.ofList (firstLiteral arguments))).withReturns := by
      rw [firstLiteral_withReturns, Key.withReturns, String.toList_ofList]
    have text : String.ofList (firstLiteral (Text.withReturns arguments))
        = (Key.mk (String.ofList (firstLiteral arguments))).withReturns.text :=
      congrArg Key.text key
    simp only [Option.map_some, key, Key.defect?_withReturns, Key.isBlank_withReturns]
    cases fault : (Key.mk (String.ofList (firstLiteral arguments))).defect? with
    | some defect =>
      simp only [text]
      rfl
    | none =>
      simp only
      split <;> rfl

end Call

theorem callsEverywhere_withReturns (bundle : Bundle) (cursor : Cursor) (text : List Char) :
    callsEverywhere bundle cursor.withReturns (withReturns text)
      = (callsEverywhere bundle cursor text).map Call.withReturns := by
  induction text generalizing cursor with
  | nil => rfl
  | cons c rest ih =>
    by_cases hc : c = '\n'
    · subst hc
      have newline : '\n' ≠ 'L' := by decide
      have ret : '\r' ≠ 'L' := by decide
      rw [Text.withReturns_newline, callsEverywhere, callsEverywhere, callsEverywhere,
        afterOpening?_eq_none ret, afterOpening?_eq_none newline, afterOpening?_eq_none newline,
        Cursor.advance_newline_withReturns, ih]
      rfl
    · have opens := afterOpening?_withReturns bundle (c :: rest)
      rw [Text.withReturns_cons hc] at opens ⊢
      rw [callsEverywhere, callsEverywhere, Cursor.advance_withReturns cursor hc, ih, opens,
        List.map_append]
      cases afterOpening? bundle (c :: rest) with
      | none => rfl
      | some opened => simp [Call.withReturns, Text.withReturns_cons hc]

theorem calls_withReturns (bundle : Bundle) (text : List Char) :
    calls bundle (withReturns text) = (calls bundle text).map Call.withReturns := by
  rw [calls_eq_callsEverywhere, calls_eq_callsEverywhere]
  exact callsEverywhere_withReturns bundle (.start text) text

theorem occurrences_withReturns {list : List Call} (h : ∀ call ∈ list, '\r' ∉ call.text) :
    occurrences (list.map Call.withReturns) = match occurrences list with
      | .ok found => .ok (found.map KeyOccurrence.withReturns)
      | .error e => .error e.withReturns := by
  induction list with
  | nil => rfl
  | cons call list ih =>
    rw [List.forall_mem_cons] at h
    rw [List.map_cons, occurrences, occurrences, Call.occurrence?_withReturns h.1, ih h.2]
    cases call.occurrence? with
    | error e => rfl
    | ok found =>
      cases occurrences list with
      | error e => rfl
      | ok others => cases found <;> rfl

theorem scan_withReturns {text : List Char} (h : '\r' ∉ text) (bundle : Bundle) :
    scan bundle (withReturns text) = match scan bundle text with
      | .ok found => .ok (found.map KeyOccurrence.withReturns)
      | .error e => .error e.withReturns := by
  rw [scan, calls_withReturns, occurrences_withReturns, scan]
  intro call inside ret
  obtain ⟨passed, split, -, -⟩ := exists_passed_of_mem_calls inside
  exact h (split ▸ List.mem_append_right passed ret)

end CallSite

/-- Line endings do not matter: if the lines of a text end in a carriage return and a newline
instead of a newline alone, a resource file defines the same, with the same error, and a scan finds
the same calls at the same places, with the same error. Only the newlines inside of a key become
line endings of the other kind. -/
theorem lineEndings_neutral {text : List Char} (h : '\r' ∉ text) :
    Properties.parse (withReturns text) = Properties.parse text ∧
    ∀ bundle, CallSite.scan bundle (withReturns text) = match CallSite.scan bundle text with
      | .ok found => .ok (found.map KeyOccurrence.withReturns)
      | .error e => .error e.withReturns :=
  ⟨Properties.parse_withReturns h, CallSite.scan_withReturns h⟩

/-- Lines that end inside of a call, behind a comment and behind a backslash in a literal. -/
theorem lineEndings_neutral_insideCall :
    '\r' ∉ "k=Localization\n.lang( // a\n\"b\\\nc\")".toList ∧
    Properties.parse "k=Localization\r\n.lang( // a\r\n\"b\\\r\nc\")".toList
      = Properties.parse "k=Localization\n.lang( // a\n\"b\\\nc\")".toList ∧
    CallSite.scan .lang "k=Localization\r\n.lang( // a\r\n\"b\\\r\nc\")".toList
      = .ok [⟨⟨"b\\\r\nc"⟩, ⟨1, 3⟩, "k=Localization"⟩] := by
  have h : '\r' ∉ "k=Localization\n.lang( // a\n\"b\\\nc\")".toList := by decide
  have found : CallSite.scan .lang "k=Localization\n.lang( // a\n\"b\\\nc\")".toList
      = .ok [⟨⟨"b\\\nc"⟩, ⟨1, 3⟩, "k=Localization"⟩] := by rfl
  obtain ⟨parsed, scanned⟩ := lineEndings_neutral h
  have scanned := scanned .lang
  rw [found] at scanned
  exact ⟨h, parsed, scanned⟩

end LocaleKeys
