import LocaleKeys.Proofs.CallSite.FirstArgument
import LocaleKeys.Proofs.Key

/-!
# What a key is refused for

The text of a key is put together from string literals (`Collects`, `keyText`), and its stored form
is searched for what it must not have. A defect of the literals shows there (`Key.Defect.Shows`),
but other literals have the same stored form: an underscore is what a space becomes, and an escaped
backslash is kept with its second half in front of an `n` (`Key.Defect.Resembles`). A call is
refused for the one as for the other, and for nothing else (`scan_refuses`).
-/

namespace LocaleKeys

/-- The content of a string literal. -/
def Item.stringContent? : Item → Option (List LiteralPart)
  | .literal .double content => some content
  | _ => none

/-- The contents of the string literals among items. -/
def stringContents (items : List Item) : List (List LiteralPart) :=
  items.filterMap Item.stringContent?

/-- The string literals that are collected for the key of a call, which `opened` follows. -/
def Collects (opened : List Char) (literals : List (List LiteralPart)) : Prop :=
  ∃ items rest, Lexed items ∧ Balanced items ∧ opened = spell items ++ ')' :: rest ∧
    literals = stringContents (firstArgument items)

/-- The text of a key that is collected from literals. -/
def keyText (literals : List (List LiteralPart)) : List Char :=
  literals.flatten.flatMap LiteralPart.text

namespace Key.Defect

/-- The literals have the defect: their text ends with a space, or there is the escape of a newline
in one of them. -/
def Shows (literals : List (List LiteralPart)) : Key.Defect → Prop
  | .trailingSpace => (keyText literals).getLast? = some ' '
  | .embeddedNewline => ∃ literal ∈ literals, .escaped 'n' ∈ literal

/-- The stored form is as if the literals had the defect: their text ends with an underscore, or
there is an escaped backslash in front of an `n`, in one of them or where one follows another. -/
def Resembles (literals : List (List LiteralPart)) : Key.Defect → Prop
  | .trailingSpace => (keyText literals).getLast? = some '_'
  | .embeddedNewline => [.escaped '\\', .plain 'n'] <:+: literals.flatten

instance (literals : List (List LiteralPart)) (defect : Key.Defect) :
    Decidable (defect.Shows literals) :=
  match defect with
  | .trailingSpace => inferInstanceAs (Decidable (_ = _))
  | .embeddedNewline => inferInstanceAs (Decidable (∃ literal ∈ literals, _ ∈ literal))

end Key.Defect

/-! ## The text of literals -/

theorem textOf_eq_keyText (items : List Item) : textOf items = keyText (stringContents items) := by
  induction items with
  | nil => rfl
  | cons item items ih =>
    rw [textOf, List.flatMap_cons, ← textOf, ih]
    cases item with
    | literal quote content =>
      cases quote with
      | double => simp [stringContents, Item.stringContent?, keyText, Item.text]
      | single => rfl
    | lineComment text => rfl
    | blockComment text => rfl
    | code c => rfl

/-- What the second pass finds is the text of the literals that are collected. -/
theorem firstLiteral_eq_keyText {items : List Item} (h : Lexed items) :
    firstLiteral (spell items) = keyText (stringContents (firstArgument items)) := by
  rw [firstLiteral_spell h, textOf_eq_keyText]

theorem fitsBetween_stringContents {items : List Item} (h : Lexed items) :
    FitsBetween .double (stringContents items).flatten := by
  induction items with
  | nil => nofun
  | cons item items ih =>
    obtain ⟨formed, -, lexed⟩ := h
    intro part inside
    rw [stringContents] at inside
    cases content : item.stringContent? with
    | none =>
      rw [List.filterMap_cons_none content] at inside
      exact ih lexed part inside
    | some parts =>
      rw [List.filterMap_cons_some content, List.flatten_cons, List.mem_append] at inside
      rcases inside with inside | inside
      · unfold Item.stringContent? at content
        split at content
        · cases content
          exact formed part inside
        · cases content
      · exact ih lexed part inside

/-- The text has a backslash with an `n` behind it for an escape of a newline and behind an escaped
backslash. -/
theorem newline_infix_text_iff {parts : List LiteralPart} (h : FitsBetween .double parts) :
    ['\\', 'n'] <:+: parts.flatMap LiteralPart.text ↔
      .escaped 'n' ∈ parts ∨ [.escaped '\\', .plain 'n'] <:+: parts := by
  induction parts with
  | nil => simp
  | cons part parts ih =>
    have fits := h part (by simp)
    have others := ih fun p hp => h p (by simp [hp])
    have first : (parts.flatMap LiteralPart.text).head? = some 'n' ↔
        parts.head? = some (.plain 'n') := by
      cases parts with
      | nil => simp
      | cons next parts =>
        cases next with
        | plain c => simp [LiteralPart.text]
        | escaped c => by_cases quote : c = '"' <;> simp [LiteralPart.text, quote]
    rw [List.flatMap_cons, Text.pair_infix_cons_iff, List.mem_cons]
    cases part with
    | plain c => simp [LiteralPart.text, Text.pair_infix_cons_iff, fits.2, others]
    | escaped c =>
      by_cases quote : c = '"'
      · simp [LiteralPart.text, Text.pair_infix_cons_iff, quote, others]
      · simp only [LiteralPart.text, if_neg quote, List.cons_append, List.nil_append,
          Text.pair_infix_cons_iff, others, first, List.head?_cons, Option.some.injEq,
          LiteralPart.escaped.injEq]
        grind

/-! ## One call -/

theorem exists_collects {opened arguments : List Char} (h : argumentList? opened = some arguments) :
    ∃ literals, Collects opened literals ∧ firstLiteral arguments = keyText literals := by
  obtain ⟨items, rest, lexed, balanced, rfl, rfl⟩ := exists_balanced_items h
  exact ⟨_, ⟨items, rest, lexed, balanced, rfl, rfl⟩, firstLiteral_eq_keyText lexed⟩

theorem Collects.exists_arguments {opened : List Char} {literals : List (List LiteralPart)}
    (h : Collects opened literals) :
    ∃ arguments, argumentList? opened = some arguments ∧
      firstLiteral arguments = keyText literals := by
  obtain ⟨items, rest, lexed, balanced, rfl, rfl⟩ := h
  exact ⟨_, argumentList?_spell lexed balanced rest, firstLiteral_eq_keyText lexed⟩

theorem Collects.fitsBetween {opened : List Char} {literals : List (List LiteralPart)}
    (h : Collects opened literals) : FitsBetween .double literals.flatten := by
  obtain ⟨items, rest, lexed, -, -, rfl⟩ := h
  obtain ⟨behind, split, -⟩ := firstArgument_split items
  exact fitsBetween_stringContents (Lexed.left (split ▸ lexed))

/-- The literals have the defect, or they look so in the stored form. -/
def Key.Defect.IsFoundIn (literals : List (List LiteralPart)) (defect : Key.Defect) : Prop :=
  defect.Shows literals ∨ defect.Resembles literals

/-- A newline is looked for in a key that does not seem to end with a space. -/
theorem Collects.defect?_eq_some_iff {opened : List Char} {literals : List (List LiteralPart)}
    (h : Collects opened literals) {defect : Key.Defect} :
    (Key.mk (String.ofList (keyText literals))).defect? = some defect ↔
      defect.IsFoundIn literals ∧
        (defect = .embeddedNewline → ¬ Key.Defect.trailingSpace.IsFoundIn literals) := by
  rw [Key.defect?_eq_some_iff]
  simp only [String.toList_ofList]
  cases defect with
  | trailingSpace => simp [Key.EndsBlank, Key.Defect.IsFoundIn, Key.Defect.Shows,
      Key.Defect.Resembles]
  | embeddedNewline =>
    rw [keyText, newline_infix_text_iff h.fitsBetween, List.mem_flatten, and_comm]
    simp [Key.EndsBlank, Key.Defect.IsFoundIn, Key.Defect.Shows, Key.Defect.Resembles, keyText]

theorem Collects.defect?_eq_none_iff {opened : List Char} {literals : List (List LiteralPart)}
    (h : Collects opened literals) :
    (Key.mk (String.ofList (keyText literals))).defect? = none ↔
      ∀ defect : Key.Defect, ¬ defect.IsFoundIn literals := by
  simp only [Option.eq_none_iff_forall_ne_some, ne_eq, h.defect?_eq_some_iff]
  constructor
  · intro none
    have space : ¬ Key.Defect.trailingSpace.IsFoundIn literals :=
      fun found => none _ ⟨found, nofun⟩
    exact fun defect found => none defect ⟨found, fun _ => space⟩
  · exact fun none defect found => none defect found.1

namespace CallSite

/-- A call gives a key just if no defect is found in its literals. -/
theorem givesKey_iff_of_collects {opened : List Char} {literals : List (List LiteralPart)}
    (h : Collects opened literals) :
    (∃ key, GivesKey opened key) ↔ ∀ defect : Key.Defect, ¬ defect.IsFoundIn literals := by
  obtain ⟨arguments, list, text⟩ := h.exists_arguments
  rw [← h.defect?_eq_none_iff, ← text]
  constructor
  · rintro ⟨key, arguments', list', rfl, sound⟩
    cases list.symm.trans list'
    exact sound
  · exact fun sound => ⟨_, arguments, list, rfl, sound⟩

theorem scan_ne_ok_of_not_givesKey {bundle : Bundle} {text before rest opened : List Char}
    (split : text = before ++ rest) (opens : OpensCall bundle rest opened)
    (h : ¬ ∃ key, GivesKey opened key) : ∃ e, scan bundle text = .error e := by
  obtain ⟨_, _, _, _, -, -, -, -, failed⟩ :=
    scan_of_not_allGiveKeys fun all => h (all before rest opened split opens)
  exact ⟨_, failed⟩

/-! ## The scan -/

/-- A scan that ends with an unusable key ends at a call in whose literals the defect is found: they
have it, or they only look so. A call gives a key if no defect is found in its literals, and no text
with a call that has one is accepted. -/
theorem scan_refuses (bundle : Bundle) (text : List Char) :
    (∀ position key defect, scan bundle text = .error ⟨position, .unusableKey key defect⟩ →
      ∃ before rest opened literals, text = before ++ rest ∧ position = Position.after before ∧
        OpensCall bundle rest opened ∧ Collects opened literals ∧
        key = String.ofList (keyText literals) ∧
        (defect.Shows literals ∨ defect.Resembles literals)) ∧
    ∀ before rest opened literals, text = before ++ rest → OpensCall bundle rest opened →
      Collects opened literals →
        ((∃ key, GivesKey opened key) ↔
          ∀ defect : Key.Defect, ¬ defect.Shows literals ∧ ¬ defect.Resembles literals) ∧
        ∀ defect : Key.Defect, defect.Shows literals → ∃ e, scan bundle text = .error e := by
  constructor
  · intro position key defect failed
    have notAll : ¬ AllGiveKeys bundle text := by
      intro all
      obtain ⟨found, scanned, -⟩ := scan_of_allGiveKeys all
      cases failed.symm.trans scanned
    obtain ⟨before, rest, opened, cause, split, opens, bad, -, failed'⟩ :=
      scan_of_not_allGiveKeys notAll
    cases failed.symm.trans failed'
    cases bad with
    | unusable arguments key defect list same fault =>
      subst same
      obtain ⟨literals, collects, text⟩ := exists_collects list
      rw [text, collects.defect?_eq_some_iff] at fault
      exact ⟨before, rest, opened, literals, split, rfl, opens, collects, by rw [text], fault.1⟩
  · intro before rest opened literals split opens collects
    have gives := givesKey_iff_of_collects collects
    refine ⟨by simpa only [Key.Defect.IsFoundIn, not_or] using gives, ?_⟩
    intro defect shows
    apply scan_ne_ok_of_not_givesKey split opens
    exact fun key => gives.mp key defect (.inl shows)

/-- A key that ends with an underscore is said to end with a space, and an escaped backslash in
front of an `n`, in one literal or where two meet, is said to be a newline. -/
theorem scan_refuses_unspaced_unbroken :
    let path : List LiteralPart := [.plain 'C', .plain ':', .escaped '\\', .plain 'n']
    let seam : List (List LiteralPart) := [[.escaped '\\'], [.plain 'n']]
    (scan .lang "Localization.lang(\"a_\")".toList
        = .error ⟨⟨1, 1⟩, .unusableKey "a_" .trailingSpace⟩ ∧
      Collects "\"a_\")".toList [[.plain 'a', .plain '_']] ∧
      ¬ Key.Defect.trailingSpace.Shows [[.plain 'a', .plain '_']]) ∧
    (scan .lang "Localization.lang(\"C:\\\\n\")".toList
        = .error ⟨⟨1, 1⟩, .unusableKey "C:\\\\n" .embeddedNewline⟩ ∧
      Collects "\"C:\\\\n\")".toList [path] ∧ ¬ Key.Defect.embeddedNewline.Shows [path]) ∧
    (scan .lang "Localization.lang(\"\\\\\" + \"n\")".toList
        = .error ⟨⟨1, 1⟩, .unusableKey "\\\\n" .embeddedNewline⟩ ∧
      Collects "\"\\\\\" + \"n\")".toList seam ∧ ¬ Key.Defect.embeddedNewline.Shows seam) := by
  intro path seam
  have collects : ∀ items : List Item, Lexed items → nesting 0 items = some 0 →
      Collects (spell items ++ ")".toList) (stringContents (firstArgument items)) :=
    fun items lexed closed => ⟨items, [], lexed, balanced_iff_nesting.mpr closed, rfl, rfl⟩
  refine ⟨⟨by rfl, ?_, by decide⟩, ⟨by rfl, ?_, by decide⟩, ⟨by rfl, ?_, by decide⟩⟩
  · exact collects [.literal .double [.plain 'a', .plain '_']]
      (by simp [Lexed, Item.WellFormed, LiteralPart.FitsIn, Quote.char]) (by decide)
  · exact collects [.literal .double path]
      (by simp [path, Lexed, Item.WellFormed, LiteralPart.FitsIn, Quote.char]) (by decide)
  · exact collects [.literal .double [.escaped '\\'], .code ' ', .code '+', .code ' ',
        .literal .double [.plain 'n']]
      (by simp [Lexed, Item.WellFormed, LiteralPart.FitsIn, Quote.char]) (by decide)

end CallSite

end LocaleKeys
