import LocaleKeys.Proofs.CallSite.Balance
import LocaleKeys.Proofs.CallSite.Reading
import LocaleKeys.Proofs.CallSite.Scan

/-!
# Where the first argument ends

The first argument of a call goes to the first comma of code that no parenthesis of the argument
list encloses (`outerArgument`, `EndsAtSeparator`). The second pass does not count parentheses and
stops at the first comma of code wherever that stands (`firstLiteral_spell`). So the text that it
finds is never more than that of the first argument, and it is all of it just if no string literal
with a text stands behind a comma of the first argument (`firstLiteral_eq_outer_iff`).
-/

namespace LocaleKeys

/-- The second pass comes to the text of the string literals in front of the first comma of code. -/
theorem firstLiteral_spell {items : List Item} (h : Lexed items) :
    firstLiteral (spell items) = textOf (firstArgument items) := by
  obtain ⟨behind, split, stop⟩ := firstArgument_split items
  have clear : OpensNoComment (spell behind) := by
    rcases stop with rfl | ⟨more, rfl⟩
    · exact ⟨nofun, nofun⟩
    · exact ⟨by simp [Item.chars], by simp [Item.chars]⟩
  obtain ⟨passing, run⟩ := readerPass_over_items (Lexed.left (split ▸ h))
    (not_mem_firstArgument items) .code clear
  have stopped : literalFrom ⟨false, 0, passing⟩ (spell behind) = [] := by
    rcases stop with rfl | ⟨more, rfl⟩ <;> rfl
  have text := run.literalFrom_eq
  rwa [← spell_append, ← split, stopped, List.append_nil] at text

/-! ## The separator -/

/-- The items in front of the first comma of code that stands outside of all parentheses, of which
`depth` are open. -/
def outerArgument (depth : Nat) : List Item → List Item
  | [] => []
  | item :: items =>
    if depth = 0 ∧ item = .code ',' then []
    else item :: outerArgument ((item.nest depth).getD 0) items

/-- The items of the first argument from its first comma on, which some parenthesis encloses. -/
def behindComma (items : List Item) : List Item :=
  items.dropWhile (· ≠ .code ',')

/-- The argument goes up to a comma behind balanced items, or to the end, and no other comma in it
stands behind balanced items. -/
structure EndsAtSeparator (items argument : List Item) : Prop where
  ends : argument = items ∨
    ∃ behind, items = argument ++ .code ',' :: behind ∧ Balanced argument
  first : ∀ before behind, argument = before ++ .code ',' :: behind → ¬ Balanced before

theorem outerArgument_ends {depth : Nat} {items : List Item} (h : nesting depth items = some 0) :
    outerArgument depth items = items ∨
      ∃ behind, items = outerArgument depth items ++ .code ',' :: behind ∧
        nesting depth (outerArgument depth items) = some 0 := by
  induction items generalizing depth with
  | nil => exact .inl rfl
  | cons item items ih =>
    rw [outerArgument]
    by_cases separator : depth = 0 ∧ item = .code ','
    · obtain ⟨rfl, rfl⟩ := separator
      exact .inr ⟨items, rfl, rfl⟩
    · rw [if_neg separator]
      obtain ⟨depth', nest, others⟩ := Option.bind_eq_some_iff.mp h
      rw [nest, Option.getD_some]
      rcases ih others with all | ⟨behind, split, closed⟩
      · exact .inl (by rw [all])
      · refine .inr ⟨behind, ?_, ?_⟩
        · rw [List.cons_append, ← split]
        · rw [nesting, nest, Option.bind_some, closed]

theorem outerArgument_first {depth : Nat} {items before behind : List Item}
    (h : outerArgument depth items = before ++ .code ',' :: behind) :
    nesting depth before ≠ some 0 := by
  induction before generalizing depth items with
  | nil =>
    cases items with
    | nil => exact absurd h (by simp [outerArgument])
    | cons item items =>
      rw [outerArgument] at h
      split at h
      · exact absurd h (by simp)
      · next inside =>
        intro closed
        exact inside ⟨Option.some.inj closed, (List.cons.inj h).1⟩
  | cons item before ih =>
    cases items with
    | nil => exact absurd h (by simp [outerArgument])
    | cons item' items =>
      rw [outerArgument] at h
      split at h
      · exact absurd h (by simp)
      · obtain ⟨rfl, later⟩ := List.cons.inj h
        intro closed
        obtain ⟨depth', nest, others⟩ := Option.bind_eq_some_iff.mp closed
        rw [nest, Option.getD_some] at later
        exact ih later others

theorem endsAtSeparator_outerArgument {items : List Item} (h : Balanced items) :
    EndsAtSeparator items (outerArgument 0 items) where
  ends := by
    rcases outerArgument_ends (h.nesting_eq 0) with all | ⟨behind, split, closed⟩
    · exact .inl all
    · exact .inr ⟨behind, split, balanced_iff_nesting.mpr closed⟩
  first _ _ split balanced := outerArgument_first split (balanced.nesting_eq 0)

/-! ## What the second pass finds of it -/

theorem firstArgument_outerArgument (depth : Nat) (items : List Item) :
    firstArgument (outerArgument depth items) = firstArgument items := by
  induction items generalizing depth with
  | nil => rfl
  | cons item items ih =>
    rw [outerArgument]
    by_cases comma : item = .code ','
    · subst comma
      split <;> rfl
    · have others := ih ((item.nest depth).getD 0)
      rw [firstArgument, firstArgument] at others
      rw [if_neg fun separator => comma separator.2, firstArgument, firstArgument,
        List.takeWhile_cons_of_pos (by simpa using comma),
        List.takeWhile_cons_of_pos (by simpa using comma), others]

theorem textOf_eq_nil_iff {items : List Item} :
    textOf items = [] ↔ ∀ item ∈ items, item.text = [] :=
  List.flatMap_eq_nil_iff

/-- The text of an argument is that in front of its first comma and that behind it. -/
theorem textOf_eq_append (items : List Item) :
    textOf items = textOf (firstArgument items) ++ textOf (behindComma items) := by
  rw [textOf, textOf, textOf, ← List.flatMap_append, firstArgument, behindComma,
    List.takeWhile_append_dropWhile]

/-- The items of an argument list are balanced, and there is one way to read them. The second pass
finds the text of the first argument, or a part in front of it. It finds all of it just if the
argument has no string literal with a text behind a comma in parentheses. -/
theorem firstLiteral_eq_outer_iff {text arguments : List Char}
    (h : argumentList? text = some arguments) :
    ∃ items : List Item, Lexed items ∧ Balanced items ∧ spell items = arguments ∧
      (∀ items', Lexed items' → spell items' = arguments → items' = items) ∧
      EndsAtSeparator items (outerArgument 0 items) ∧
      firstLiteral arguments <+: textOf (outerArgument 0 items) ∧
      (firstLiteral arguments = textOf (outerArgument 0 items) ↔
        ∀ item ∈ behindComma (outerArgument 0 items), item.text = []) := by
  obtain ⟨items, rest, lexed, balanced, -, rfl⟩ := exists_balanced_items h
  have whole := textOf_eq_append (outerArgument 0 items)
  rw [firstArgument_outerArgument, ← firstLiteral_spell lexed] at whole
  refine ⟨items, lexed, balanced, rfl, fun _ lexed' same => lexed'.unique lexed same,
    endsAtSeparator_outerArgument balanced, ?_, ?_⟩
  · rw [whole]
    exact List.prefix_append _ _
  · rw [whole, List.self_eq_append_right, textOf_eq_nil_iff]

/-- A comma in parentheses behind all of the text. -/
theorem firstLiteral_eq_outer_iff_nested :
    argumentList? "\"a\" + f(x, y), \"b\") c".toList = some "\"a\" + f(x, y), \"b\"".toList ∧
    ∃ items : List Item, spell items = "\"a\" + f(x, y), \"b\"".toList ∧
      EndsAtSeparator items (outerArgument 0 items) ∧
      (firstLiteral "\"a\" + f(x, y), \"b\"".toList = textOf (outerArgument 0 items) ↔
        ∀ item ∈ behindComma (outerArgument 0 items), item.text = []) := by
  have list : argumentList? "\"a\" + f(x, y), \"b\") c".toList
      = some "\"a\" + f(x, y), \"b\"".toList := by decide
  obtain ⟨items, -, -, spelled, -, ends, -, all⟩ := firstLiteral_eq_outer_iff list
  exact ⟨list, items, spelled, ends, all⟩

/-- A comma in the parentheses of the first argument cuts the key off, and the call seems to name
none. -/
theorem firstLiteral_of_enclosedComma :
    let items : List Item := [.code 'f', .code '(', .code 'x', .code ',', .code ' ',
      .literal .double [.plain 'a'], .code ')', .code ',', .code ' ', .literal .double [.plain 'b']]
    argumentList? "f(x, \"a\"), \"b\")".toList = some (spell items) ∧ Lexed items ∧
      EndsAtSeparator items (outerArgument 0 items) ∧ textOf (outerArgument 0 items) = ['a'] ∧
      firstLiteral (spell items) = [] ∧
      CallSite.scan .lang "Localization.lang(f(x, \"a\"), \"b\")".toList = .ok [] := by
  intro items
  have balanced : Balanced items := balanced_iff_nesting.mpr (by decide)
  refine ⟨by decide, ?_, endsAtSeparator_outerArgument balanced, by decide, by decide, by rfl⟩
  simp [items, Lexed, Item.WellFormed, LiteralPart.FitsIn, Quote.char]

end LocaleKeys
