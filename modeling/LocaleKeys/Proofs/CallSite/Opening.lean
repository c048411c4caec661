import LocaleKeys.CallSite.Scan

/-!
# Where calls begin

`OpensCall` is the shape of a call as a text: the class name, a dot, the method and an opening
parenthesis, with white space between them. The capital letter of the class name occurs nowhere
else in that shape, so no call begins inside another one (`OpensCall.take_ne`), and the search
that goes on behind each opening parenthesis (`calls`) visits the same calls as one that looks at
every place of the text (`callsEverywhere`).
-/

namespace LocaleKeys.CallSite

open Text (isSpace afterWord?)

/-- The text of a call up to and including its opening parenthesis. -/
def Opening (bundle : Bundle) (matched : List Char) : Prop :=
  ∃ a b c : List Char, (∀ x ∈ a ++ b ++ c, isSpace x = true) ∧
    matched = className ++ a ++ ['.'] ++ b ++ bundle.method.toList ++ c ++ ['(']

/-- The text begins with a call, and `opened` follows its opening parenthesis. -/
def OpensCall (bundle : Bundle) (text opened : List Char) : Prop :=
  ∃ matched, Opening bundle matched ∧ text = matched ++ opened

/-- The method name of a bundle begins with a letter of its own. -/
def methodInitial : Bundle → Char
  | .lang => 'l'
  | .menu => 'm'

theorem method_eq_cons (bundle : Bundle) :
    ∃ letters, bundle.method.toList = methodInitial bundle :: letters ∧ 'L' ∉ letters := by
  cases bundle with
  | lang => exact ⟨['a', 'n', 'g'], rfl, by decide⟩
  | menu => exact ⟨['e', 'n', 'u', 'T', 'i', 't', 'l', 'e'], rfl, by decide⟩

/-- White space in front of a character that is none is what skipping white space takes away. -/
theorem dropWhile_isSpace_eq_iff {text rest : List Char} {c : Char} (hc : isSpace c = false) :
    text.dropWhile isSpace = c :: rest ↔
      ∃ a, (∀ x ∈ a, isSpace x = true) ∧ text = a ++ c :: rest := by
  constructor
  · intro h
    refine ⟨text.takeWhile isSpace, fun x hx => ?_, ?_⟩
    · exact List.all_eq_true.mp List.all_takeWhile x hx
    · rw [← h, List.takeWhile_append_dropWhile]
  · rintro ⟨a, ha, rfl⟩
    rw [List.dropWhile_append_of_pos ha, List.dropWhile_cons_of_neg (by simp [hc])]

theorem afterOpening?_eq_some_iff {bundle : Bundle} {text opened : List Char} :
    afterOpening? bundle text = some opened ↔ OpensCall bundle text opened := by
  obtain ⟨letters, hm, -⟩ := method_eq_cons bundle
  have hi : isSpace (methodInitial bundle) = false := by cases bundle <;> decide
  have dot : isSpace '.' = false := by decide
  have paren : isSpace '(' = false := by decide
  simp only [afterOpening?, bind, Option.bind_eq_some_iff, Text.afterWord?_eq_some_iff, hm,
    List.cons_append, List.nil_append, dropWhile_isSpace_eq_iff hi, dropWhile_isSpace_eq_iff dot,
    dropWhile_isSpace_eq_iff paren, OpensCall, Opening]
  constructor
  · rintro ⟨t, rfl, u, ⟨a, ha, rfl⟩, v, ⟨b, hb, rfl⟩, c, hc, rfl⟩
    refine ⟨_, ⟨a, b, c, ?_, rfl⟩, by simp⟩
    simp only [List.mem_append]
    rintro x ((hx | hx) | hx)
    · exact ha x hx
    · exact hb x hx
    · exact hc x hx
  · rintro ⟨_, ⟨a, b, c, spaces, rfl⟩, rfl⟩
    simp only [List.mem_append] at spaces
    refine ⟨a ++ '.' :: (b ++ methodInitial bundle :: (letters ++ (c ++ '(' :: opened))), by simp,
      b ++ methodInitial bundle :: (letters ++ (c ++ '(' :: opened)),
      ⟨a, fun x hx => spaces x (.inl (.inl hx)), rfl⟩, c ++ '(' :: opened,
      ⟨b, fun x hx => spaces x (.inl (.inr hx)), rfl⟩, c, fun x hx => spaces x (.inr hx), rfl⟩

/-- At one place of a text there is no call of both bundles. -/
theorem OpensCall.bundle_unique {bundle bundle' : Bundle} {text opened opened' : List Char}
    (h : OpensCall bundle text opened) (h' : OpensCall bundle' text opened') :
    bundle = bundle' := by
  have first := afterOpening?_eq_some_iff.mpr h
  have second := afterOpening?_eq_some_iff.mpr h'
  simp only [afterOpening?, bind, Option.bind_eq_some_iff] at first second
  obtain ⟨t, ht, u, hu, v, hv, -⟩ := first
  obtain ⟨t', ht', u', hu', v', hv', -⟩ := second
  cases Option.some.inj (ht.symm.trans ht')
  cases Option.some.inj (hu.symm.trans hu')
  rw [Text.afterWord?_eq_some_iff] at hv hv'
  obtain ⟨letters, hm, -⟩ := method_eq_cons bundle
  obtain ⟨letters', hm', -⟩ := method_eq_cons bundle'
  have same : methodInitial bundle = methodInitial bundle' := by
    rw [hv, hm, hm'] at hv'
    exact (List.cons.inj hv').1
  cases bundle <;> cases bundle' <;> first | rfl | exact absurd same (by decide)

/-! ## No call inside another one -/

theorem Opening.exists_cons {bundle : Bundle} {matched : List Char} (h : Opening bundle matched) :
    ∃ tail, matched = 'L' :: tail ∧ 'L' ∉ tail := by
  obtain ⟨a, b, c, spaces, rfl⟩ := h
  obtain ⟨letters, hm, fresh⟩ := method_eq_cons bundle
  have gap : ∀ x ∈ a ++ b ++ c, x ≠ 'L' := by
    rintro x hx rfl
    exact absurd (spaces 'L' hx) (by decide)
  have initial : methodInitial bundle ≠ 'L' := by cases bundle <;> decide
  refine ⟨"ocalization".toList ++ a ++ ['.'] ++ b ++ bundle.method.toList ++ c ++ ['('], rfl, ?_⟩
  intro h
  simp only [hm, List.mem_append, List.mem_cons, List.not_mem_nil, or_false] at h gap
  rcases h with ((((((h | h) | h) | h) | h | h) | h) | h)
  · exact absurd h (by decide)
  · exact gap _ (.inl (.inl h)) rfl
  · exact absurd h (by decide)
  · exact gap _ (.inl (.inr h)) rfl
  · exact initial h.symm
  · exact fresh h
  · exact gap _ (.inr h) rfl
  · exact absurd h (by decide)

/-- A call begins with the capital letter of the class name. -/
theorem OpensCall.head_eq {bundle : Bundle} {c : Char} {rest opened : List Char}
    (h : OpensCall bundle (c :: rest) opened) : c = 'L' := by
  obtain ⟨matched, shape, split⟩ := h
  obtain ⟨tail, rfl, -⟩ := shape.exists_cons
  exact (List.cons.inj split).1

theorem afterOpening?_eq_none {bundle : Bundle} {c : Char} {rest : List Char} (h : c ≠ 'L') :
    afterOpening? bundle (c :: rest) = none := by
  rw [Option.eq_none_iff_forall_ne_some]
  intro opened found
  exact h (afterOpening?_eq_some_iff.mp found).head_eq

/-- The capital letter does not occur again before the opening parenthesis. -/
theorem OpensCall.take_ne {bundle : Bundle} {c : Char} {rest opened : List Char}
    (h : OpensCall bundle (c :: rest) opened) :
    ∀ x ∈ rest.take (rest.length - opened.length), x ≠ 'L' := by
  obtain ⟨matched, shape, split⟩ := h
  obtain ⟨tail, rfl, fresh⟩ := shape.exists_cons
  have behind : rest = tail ++ opened := (List.cons.inj split).2
  rintro x hx rfl
  rw [behind, List.length_append, Nat.add_sub_cancel, List.take_left] at hx
  exact fresh hx

/-! ## The search -/

/-- The calls that begin anywhere in a text which the cursor stands before. -/
def callsEverywhere (bundle : Bundle) (cursor : Cursor) : List Char → List Call
  | [] => []
  | c :: rest =>
    ((afterOpening? bundle (c :: rest)).map (⟨cursor, c :: rest, ·⟩)).toList
      ++ callsEverywhere bundle (cursor.advance c rest) rest

/-- The search misses nothing in the characters that it passes over. -/
theorem callsFrom_eq_callsEverywhere {bundle : Bundle} {cursor : Cursor} {inside : Nat}
    {text : List Char} (h : ∀ x ∈ text.take inside, x ≠ 'L') :
    callsFrom bundle cursor inside text = callsEverywhere bundle cursor text := by
  induction text generalizing cursor inside with
  | nil => rfl
  | cons c rest ih =>
    cases inside with
    | succ inside =>
      rw [callsFrom, callsEverywhere, afterOpening?_eq_none (h c (by simp))]
      exact ih fun x hx => h x (by simp [hx])
    | zero =>
      rw [callsFrom, callsEverywhere]
      cases found : afterOpening? bundle (c :: rest) with
      | none => exact ih (by simp)
      | some opened =>
        have clear := (afterOpening?_eq_some_iff.mp found).take_ne
        exact congrArg _ (ih clear)

theorem calls_eq_callsEverywhere (bundle : Bundle) (text : List Char) :
    calls bundle text = callsEverywhere bundle (.start text) text :=
  callsFrom_eq_callsEverywhere (by simp)

end LocaleKeys.CallSite
