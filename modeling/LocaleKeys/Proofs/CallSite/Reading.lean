import LocaleKeys.Proofs.CallSite.Item

/-!
# Items are read in one way

The grammar of items is unambiguous: what a text begins with is one item at most (`Item.unique`), so
no text is spelled by two lists of items (`Lexed.unique`). What is said of the items of an argument
list is said of the list itself.
-/

namespace LocaleKeys

theorem Quote.char_ne_backslash (quote : Quote) : quote.char ≠ '\\' := by
  cases quote <;> decide

theorem Quote.eq_of_char {quote quote' : Quote} (h : quote.char = quote'.char) :
    quote = quote' := by
  cases quote <;> cases quote' <;> simp_all [Quote.char]

/-- The content of a literal ends at the first quote that no backslash takes along. -/
theorem content_unique {quote : Quote} {content content' : List LiteralPart}
    {rest rest' : List Char} (h : FitsBetween quote content) (h' : FitsBetween quote content')
    (same : contentChars content ++ quote.char :: rest
      = contentChars content' ++ quote.char :: rest') :
    content = content' ∧ rest = rest' := by
  induction content generalizing content' with
  | nil =>
    cases content' with
    | nil => exact ⟨rfl, (List.cons.inj same).2⟩
    | cons part content' =>
      have fits := h' part (by simp)
      cases part with
      | plain c => exact absurd (List.cons.inj same).1.symm fits.1
      | escaped c => exact absurd (List.cons.inj same).1 quote.char_ne_backslash
  | cons part content ih =>
    have fits := h part (by simp)
    have tail : FitsBetween quote content := fun p hp => h p (by simp [hp])
    cases content' with
    | nil =>
      cases part with
      | plain c => exact absurd (List.cons.inj same).1 fits.1
      | escaped c => exact absurd (List.cons.inj same).1.symm quote.char_ne_backslash
    | cons part' content' =>
      have fits' := h' part' (by simp)
      have tail' : FitsBetween quote content' := fun p hp => h' p (by simp [hp])
      cases part with
      | plain c =>
        cases part' with
        | plain c' =>
          obtain ⟨rfl, behind⟩ := List.cons.inj same
          obtain ⟨rfl, others⟩ := ih tail tail' behind
          exact ⟨rfl, others⟩
        | escaped c' => exact absurd (List.cons.inj same).1 fits.2
      | escaped c =>
        cases part' with
        | plain c' => exact absurd (List.cons.inj same).1.symm fits'.2
        | escaped c' =>
          obtain ⟨rfl, behind⟩ := List.cons.inj (List.cons.inj same).2
          obtain ⟨rfl, others⟩ := ih tail tail' behind
          exact ⟨rfl, others⟩

theorem Item.eq_comment_of_kind {item : Item} (h : item.kind = .comment) :
    (∃ text, item = .lineComment text) ∨ ∃ text, item = .blockComment text := by
  cases item with
  | lineComment text => exact .inl ⟨text, rfl⟩
  | blockComment text => exact .inr ⟨text, rfl⟩
  | literal quote content => cases quote <;> simp [Item.kind, Quote.kind] at h
  | code c => simp [Item.kind] at h

/-- A comment is a slash and the characters that it takes along. -/
theorem Item.exists_comment_chars {item : Item} (h : item.WellFormed)
    (kind : item.kind = .comment) :
    ∃ body, item.chars = '/' :: body ∧ body ≠ [] ∧
      ∀ rest, commentLength (body ++ rest) = body.length := by
  rcases Item.eq_comment_of_kind kind with ⟨text, rfl⟩ | ⟨text, rfl⟩
  · exact ⟨_, rfl, by simp, commentLength_lineComment h⟩
  · exact ⟨_, rfl, by simp, commentLength_blockComment h⟩

/-- Nothing else begins as a comment does. -/
theorem Item.comment_unique {item item' : Item} {rest rest' : List Char} (h : item.WellFormed)
    (h' : item'.WellFormed) (slash' : item' = .code '/' → OpensNoComment rest')
    (kind : item.kind = .comment) (same : item.chars ++ rest = item'.chars ++ rest') :
    item = item' ∧ rest = rest' := by
  obtain ⟨body, chars, nonempty, along⟩ := Item.exists_comment_chars h kind
  have of_comment : item'.kind = .comment → item = item' ∧ rest = rest' := by
    intro kind'
    obtain ⟨body', chars', -, along'⟩ := Item.exists_comment_chars h' kind'
    have bodies : body ++ rest = body' ++ rest' := by
      rw [chars, chars'] at same
      exact (List.cons.inj same).2
    have length : body.length = body'.length := by rw [← along rest, bodies, along']
    obtain ⟨rfl, rfl⟩ := List.append_inj bodies length
    refine ⟨?_, rfl⟩
    have same : item.chars = item'.chars := chars.trans chars'.symm
    clear chars chars'
    rcases Item.eq_comment_of_kind kind with ⟨text, rfl⟩ | ⟨text, rfl⟩ <;>
      rcases Item.eq_comment_of_kind kind' with ⟨text', rfl⟩ | ⟨text', rfl⟩ <;>
      simp_all [Item.chars]
  cases item' with
  | lineComment text => exact of_comment rfl
  | blockComment text => exact of_comment rfl
  | literal quote content =>
    rw [chars] at same
    cases quote <;> exact absurd (List.cons.inj same).1 (by decide)
  | code c =>
    rw [chars] at same
    obtain ⟨rfl, rfl⟩ := List.cons.inj same
    have none : commentLength (body ++ rest) = 0 := commentLength_eq_zero_iff.mpr (slash' rfl)
    rw [along, List.length_eq_zero_iff] at none
    exact absurd none nonempty

/-- Nothing else begins as a literal does. -/
theorem Item.literal_unique {quote : Quote} {content : List LiteralPart} {item : Item}
    {rest rest' : List Char} (h : FitsBetween quote content) (h' : item.WellFormed)
    (same : (literal quote content).chars ++ rest = item.chars ++ rest') :
    literal quote content = item ∧ rest = rest' := by
  cases item with
  | literal quote' content' =>
    simp only [Item.chars, List.cons_append, List.append_assoc, List.cons.injEq] at same
    obtain ⟨char, inside⟩ := same
    obtain rfl := Quote.eq_of_char char
    obtain ⟨rfl, behind⟩ := content_unique h h' inside
    exact ⟨rfl, behind⟩
  | lineComment text => cases quote <;> exact absurd (List.cons.inj same).1 (by decide)
  | blockComment text => cases quote <;> exact absurd (List.cons.inj same).1 (by decide)
  | code c =>
    have char := (List.cons.inj same).1.symm
    cases quote
    · exact absurd char h'.1
    · exact absurd char h'.2

/-- A text begins with one item at most. -/
theorem Item.unique {item item' : Item} {rest rest' : List Char} (h : item.WellFormed)
    (h' : item'.WellFormed) (slash : item = .code '/' → OpensNoComment rest)
    (slash' : item' = .code '/' → OpensNoComment rest')
    (same : item.chars ++ rest = item'.chars ++ rest') : item = item' ∧ rest = rest' := by
  have swap : item' = item ∧ rest' = rest → item = item' ∧ rest = rest' :=
    fun ⟨items, rests⟩ => ⟨items.symm, rests.symm⟩
  cases item with
  | literal quote content => exact Item.literal_unique h h' same
  | lineComment text => exact Item.comment_unique h h' slash' rfl same
  | blockComment text => exact Item.comment_unique h h' slash' rfl same
  | code c =>
    cases item' with
    | literal quote content => exact swap (Item.literal_unique h' h same.symm)
    | lineComment text => exact swap (Item.comment_unique h' h slash rfl same.symm)
    | blockComment text => exact swap (Item.comment_unique h' h slash rfl same.symm)
    | code c' =>
      obtain ⟨rfl, rfl⟩ := List.cons.inj same
      exact ⟨rfl, rfl⟩

/-- A text is read in one way at most. -/
theorem Lexed.unique {items items' : List Item} (h : Lexed items) (h' : Lexed items')
    (same : spell items = spell items') : items = items' := by
  induction items generalizing items' with
  | nil =>
    cases items' with
    | nil => rfl
    | cons item' items' => cases item' <;> exact absurd same (by simp [spell, Item.chars])
  | cons item items ih =>
    cases items' with
    | nil => cases item <;> exact absurd same (by simp [spell, Item.chars])
    | cons item' items' =>
      obtain ⟨formed, slash, lexed⟩ := h
      obtain ⟨formed', slash', lexed'⟩ := h'
      obtain ⟨rfl, behind⟩ := Item.unique formed formed' slash slash' same
      rw [ih lexed lexed' behind]

end LocaleKeys
