import LocaleKeys.Proofs.Properties.RawKey
import Mathlib.Data.List.TakeWhile

/-!
# Backslashes that escape

A backslash takes the next character along, so it escapes that character unless it is itself taken:
what stands in front of it must not end in an odd number of backslashes. `continues` tells that
parity, and neither a character that is no backslash (`continues_cons`) nor a backslash with what it
takes (`continues_pair`) changes it for what follows. So a text that begins with one of these can
be cut off it in front of every backslash that escapes (`cut_plain`, `cut_pair`, `cut_unit`).
-/

namespace LocaleKeys.Properties

namespace LogicalLine

theorem continues_cons {c : Char} (h : c ≠ '\\') (text : List Char) :
    continues (c :: text) = continues text := by
  have run : ((c :: text).reverse.takeWhile (· == '\\')).length =
      (text.reverse.takeWhile (· == '\\')).length := by
    rw [List.reverse_cons, List.takeWhile_append]
    split
    · next whole => simp [h, whole]
    · rfl
  rw [continues, run, continues]

theorem continues_pair (c : Char) (text : List Char) :
    continues ('\\' :: c :: text) = continues text := by
  by_cases backslash : c = '\\'
  · subst backslash
    have run : (('\\' :: '\\' :: text).reverse.takeWhile (· == '\\')).length % 2 =
        (text.reverse.takeWhile (· == '\\')).length % 2 := by
      rw [List.reverse_cons, List.reverse_cons, List.append_assoc, List.takeWhile_append]
      split
      · next whole => simp [whole]
      · rfl
    rw [continues, run, continues]
  · have run : (('\\' :: c :: text).reverse.takeWhile (· == '\\')).length =
        ((c :: text).reverse.takeWhile (· == '\\')).length := by
      rw [List.reverse_cons, List.takeWhile_append, if_neg]
      intro whole
      have all := List.takeWhile_eq_self_iff.mp (List.takeWhile_sublist _ |>.eq_of_length whole)
      exact backslash (by simpa using all c (by simp))
    rw [← continues_cons backslash text, continues, run, continues]

end LogicalLine

open LogicalLine (continues continues_cons continues_pair)

/-- The next character is not taken along by a backslash in front of it. -/
def Unescaped (before : List Char) : Prop :=
  continues before = false

theorem unescaped_nil : Unescaped [] := rfl

theorem unescaped_cons_iff {c : Char} (h : c ≠ '\\') {before : List Char} :
    Unescaped (c :: before) ↔ Unescaped before := by
  rw [Unescaped, Unescaped, continues_cons h]

theorem unescaped_pair_iff {c : Char} {before : List Char} :
    Unescaped ('\\' :: c :: before) ↔ Unescaped before := by
  rw [Unescaped, Unescaped, continues_pair]

/-- A backslash behind characters that are none is one of the rest. -/
theorem cut_plain {plain rest before after : List Char} (clear : ∀ c ∈ plain, c ≠ '\\')
    (split : plain ++ rest = before ++ '\\' :: after) (h : Unescaped before) :
    ∃ before', before = plain ++ before' ∧ rest = before' ++ '\\' :: after ∧ Unescaped before' := by
  induction plain generalizing before with
  | nil => exact ⟨before, rfl, split, h⟩
  | cons c plain ih =>
    rw [List.forall_mem_cons] at clear
    cases before with
    | nil => exact absurd (List.cons.inj split).1 clear.1
    | cons d before =>
      obtain ⟨rfl, tail⟩ := List.cons.inj split
      obtain ⟨before', rfl, rest_eq, free⟩ :=
        ih clear.2 tail ((unescaped_cons_iff clear.1).mp h)
      exact ⟨before', rfl, rest_eq, free⟩

/-- A backslash that escapes is the first of a pair or one of what follows the pair. -/
theorem cut_pair {c : Char} {rest before after : List Char}
    (split : '\\' :: c :: rest = before ++ '\\' :: after) (h : Unescaped before) :
    (before = [] ∧ after = c :: rest) ∨
      ∃ before', before = '\\' :: c :: before' ∧ rest = before' ++ '\\' :: after ∧
        Unescaped before' := by
  match before with
  | [] => exact .inl ⟨rfl, (List.cons.inj split).2.symm⟩
  | [d] =>
    obtain ⟨rfl, -⟩ := List.cons.inj split
    cases h
  | d :: e :: before =>
    simp only [List.cons_append, List.cons.injEq] at split
    obtain ⟨rfl, rfl, tail⟩ := split
    exact .inr ⟨before, rfl, tail, unescaped_pair_iff.mp h⟩

/-- A backslash that escapes is the first of the escape of a code unit or one of what follows the
escape. -/
theorem cut_unit {a b c d : Char} {rest before after : List Char}
    (clear : ∀ x ∈ [a, b, c, d], x ≠ '\\')
    (split : '\\' :: 'u' :: a :: b :: c :: d :: rest = before ++ '\\' :: after)
    (h : Unescaped before) :
    (before = [] ∧ after = 'u' :: a :: b :: c :: d :: rest) ∨
      ∃ before', before = '\\' :: 'u' :: a :: b :: c :: d :: before' ∧
        rest = before' ++ '\\' :: after ∧ Unescaped before' := by
  rcases cut_pair split h with first | ⟨behind, rfl, tail, free⟩
  · exact .inl first
  · obtain ⟨before', rfl, rest_eq, free'⟩ := cut_plain clear tail free
    exact .inr ⟨before', rfl, rest_eq, free'⟩

end LocaleKeys.Properties
