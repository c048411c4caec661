import LocaleKeys.Proofs.CallSite.Passes

/-!
# The grammar of argument lists

An argument list is a balanced sequence of items: parentheses of code stand in pairs, and between
them stands such a sequence again (`Balanced`). Balance is what the counting of open parentheses
finds (`balanced_iff_nesting`), so the first pass accepts this grammar and nothing else, and finds
no argument list just in texts that end before the parentheses do (`argumentList?_exact`).
-/

namespace LocaleKeys

/-- The item is no parenthesis of code. -/
def Item.IsPlain (item : Item) : Prop :=
  item ≠ .code '(' ∧ item ≠ .code ')'

theorem Item.IsPlain.nest_eq {item : Item} (h : item.IsPlain) (depth : Nat) :
    item.nest depth = some depth := by
  obtain ⟨opening, closing⟩ := h
  unfold nest
  split
  · exact absurd rfl opening
  · exact absurd rfl closing
  · rfl

/-- Parentheses of code stand in pairs around such sequences. -/
inductive Balanced : List Item → Prop where
  | empty : Balanced []
  | plain {item : Item} {items : List Item} (single : item.IsPlain) (others : Balanced items) :
      Balanced (item :: items)
  | parenthesised {inside items : List Item} (inner : Balanced inside) (others : Balanced items) :
      Balanced (.code '(' :: (inside ++ .code ')' :: items))

theorem nesting_append (depth : Nat) (items items' : List Item) :
    nesting depth (items ++ items') = (nesting depth items).bind (nesting · items') := by
  induction items generalizing depth with
  | nil => rfl
  | cons item items ih =>
    rw [List.cons_append, nesting, nesting]
    cases item.nest depth with
    | none => rfl
    | some depth' => exact ih depth'

/-- A balanced sequence leaves as many parentheses open as there are. -/
theorem Balanced.nesting_eq {items : List Item} (h : Balanced items) (depth : Nat) :
    nesting depth items = some depth := by
  induction h generalizing depth with
  | empty => rfl
  | plain single _ ih => rw [nesting, single.nest_eq, Option.bind_some, ih]
  | parenthesised _ _ inner others =>
    rw [nesting, Item.nest, Option.bind_some, nesting_append, inner, Option.bind_some, nesting]
    exact others depth

/-- Items that close all parentheses are balanced up to the first that was open before. -/
theorem exists_balanced {depth : Nat} {items : List Item} (h : nesting depth items = some 0) :
    ∃ inside rest, Balanced inside ∧ items = inside ++ rest ∧
      ((depth = 0 ∧ rest = []) ∨
        ∃ depth' behind, depth = depth' + 1 ∧ rest = .code ')' :: behind ∧
          nesting depth' behind = some 0) := by
  cases items with
  | nil =>
    cases h
    exact ⟨[], [], .empty, rfl, .inl ⟨rfl, rfl⟩⟩
  | cons item items =>
    by_cases opening : item = .code '('
    · subst opening
      have h : nesting (depth + 1) items = some 0 := h
      obtain ⟨inside, _, inner, rfl, ⟨none, -⟩ | ⟨depth', behind, same, rfl, outside⟩⟩ :=
        exists_balanced h
      · exact absurd none (Nat.succ_ne_zero depth)
      · obtain rfl := Nat.succ.inj same
        obtain ⟨inside', rest, others, rfl, closes⟩ := exists_balanced outside
        exact ⟨_, rest, .parenthesised inner others, by simp, closes⟩
    · by_cases closing : item = .code ')'
      · subst closing
        cases depth with
        | zero => exact absurd h (by simp [nesting, Item.nest])
        | succ depth => exact ⟨[], _, .empty, rfl, .inr ⟨depth, items, rfl, rfl, h⟩⟩
      · have single : item.IsPlain := ⟨opening, closing⟩
        rw [nesting, single.nest_eq, Option.bind_some] at h
        obtain ⟨inside, rest, others, rfl, closes⟩ := exists_balanced h
        exact ⟨item :: inside, rest, .plain single others, rfl, closes⟩
termination_by items.length

theorem balanced_iff_nesting {items : List Item} : Balanced items ↔ nesting 0 items = some 0 := by
  constructor
  · exact fun balanced => balanced.nesting_eq 0
  · intro closed
    obtain ⟨inside, _, balanced, rfl, ⟨-, rfl⟩ | ⟨_, _, open_, -⟩⟩ := exists_balanced closed
    · rwa [List.append_nil]
    · exact absurd open_ (Nat.zero_ne_add_one _)

/-- The text is spelled by a balanced sequence of items. -/
def IsArgumentList (text : List Char) : Prop :=
  ∃ items, Balanced items ∧ Lexed items ∧ spell items = text

theorem argumentList?_spell {items : List Item} (h : Lexed items) (balanced : Balanced items)
    (rest : List Char) : argumentList? (spell items ++ ')' :: rest) = some (spell items) :=
  argumentsFrom_spell h (balanced.nesting_eq 0) [] rest

theorem exists_balanced_items {text arguments : List Char}
    (h : argumentList? text = some arguments) :
    ∃ items rest, Lexed items ∧ Balanced items ∧ text = arguments ++ ')' :: rest ∧
      spell items = arguments := by
  obtain ⟨items, rest, lexed, nest, rfl, rfl⟩ := exists_items h
  exact ⟨items, rest, lexed, balanced_iff_nesting.mpr nest, rfl, rfl⟩

theorem argumentList?_eq_some_iff {text arguments : List Char} :
    argumentList? text = some arguments ↔
      IsArgumentList arguments ∧ ∃ rest, text = arguments ++ ')' :: rest := by
  constructor
  · intro found
    obtain ⟨items, rest, lexed, balanced, rfl, spelled⟩ := exists_balanced_items found
    exact ⟨⟨items, balanced, lexed, spelled⟩, rest, rfl⟩
  · rintro ⟨⟨items, balanced, lexed, rfl⟩, rest, rfl⟩
    exact argumentList?_spell lexed balanced rest

theorem argumentList?_eq_none_iff {text : List Char} :
    argumentList? text = none ↔ EndsOpen 0 text := by
  constructor
  · intro none
    rcases items_cases 0 text with ⟨items, rest, lexed, nest, rfl⟩ | ends
    · rw [argumentList?_spell lexed (balanced_iff_nesting.mpr nest)] at none
      exact absurd none (by simp)
    · exact ends
  · exact fun ends => argumentsFrom_of_endsOpen ends []

/-- The first pass accepts the argument lists in front of a closing parenthesis, and nothing else. A
text begins with one of them at most, and with none just if it ends inside of a literal, a comment
or a parenthesis. -/
theorem argumentList?_exact (text : List Char) :
    (∀ arguments, argumentList? text = some arguments ↔
      IsArgumentList arguments ∧ ∃ rest, text = arguments ++ ')' :: rest) ∧
    (∀ arguments arguments' rest rest', IsArgumentList arguments → IsArgumentList arguments' →
      text = arguments ++ ')' :: rest → text = arguments' ++ ')' :: rest' →
      arguments = arguments') ∧
    (argumentList? text = none ↔ EndsOpen 0 text) := by
  refine ⟨fun _ => argumentList?_eq_some_iff, ?_, argumentList?_eq_none_iff⟩
  intro arguments arguments' rest rest' list list' split split'
  have found := argumentList?_eq_some_iff.mpr ⟨list, rest, split⟩
  have found' := argumentList?_eq_some_iff.mpr ⟨list', rest', split'⟩
  exact Option.some.inj (found.symm.trans found')

/-- Parentheses in a literal and in a comment count for nothing, and those of code in pairs. -/
example : argumentList? "f('(') /* ) */ + (\"a)\"), x) y".toList =
    some "f('(') /* ) */ + (\"a)\"), x".toList := by
  decide

end LocaleKeys
