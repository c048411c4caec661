import LocaleKeys.Proofs.Key
import LocaleKeys.Properties.Entry

/-!
# Raw keys and the keys that they stand for

`IsRawKey` is what `spanKey` takes off a logical line, and `StandsFor` is the grammar of what
`unescape?` makes of it. A key is stored in at most as many characters as its raw key has, and in as
many only if it is stored as the raw key itself (`StandsFor.length_lt_or_eq`). A key without
backslashes that holds nothing which ends a raw key is stored as a raw key that stands for it
(`spanKey_escape`, `unescape?_escape`).
-/

namespace LocaleKeys.Properties

/-- A raw key: a backslash takes the next character along, and no other character ends a key. -/
inductive IsRawKey : List Char → Prop where
  | nil : IsRawKey []
  | trailing : IsRawKey ['\\']
  | pair {c : Char} {rest : List Char} (h : IsRawKey rest) : IsRawKey ('\\' :: c :: rest)
  | plain {c : Char} {rest : List Char} (backslash : c ≠ '\\') (separator : isSeparator c = false)
      (blank : isBlank c = false) (h : IsRawKey rest) : IsRawKey (c :: rest)

theorem isRawKey_spanKey (text : List Char) : IsRawKey (spanKey text).1 := by
  fun_induction spanKey text with
  | case1 => exact .nil
  | case2 c rest key after split ih =>
    rw [split] at ih
    exact .pair ih
  | case3 => exact .nil
  | case4 c rest single stop key after split ih =>
    rw [split] at ih
    simp only [Bool.or_eq_true, not_or, Bool.not_eq_true] at stop
    by_cases backslash : c = '\\'
    · subst backslash
      cases rest with
      | nil =>
        cases split
        exact .trailing
      | cons d rest => exact (single d rest rfl rfl).elim
    · exact .plain backslash stop.1 stop.2 ih

theorem spanKey_append (text : List Char) : (spanKey text).1 ++ (spanKey text).2 = text := by
  fun_induction spanKey text with
  | case1 => rfl
  | case2 c rest key after split ih =>
    rw [split] at ih
    exact congrArg (['\\', c] ++ ·) ih
  | case3 => rfl
  | case4 c rest single stop key after split ih =>
    rw [split] at ih
    exact congrArg (c :: ·) ih

/-- What raw keys stand for, escape by escape. -/
inductive StandsFor : List Char → List Char → Prop where
  | nil : StandsFor [] []
  | trailing : StandsFor ['\\'] []
  /-- One or two escaped code units are a character. -/
  | unit {units rest key : List Char} {c : Char} (long : 6 ≤ units.length) (equals : '=' ∉ units)
      (h : StandsFor rest key) : StandsFor (units ++ rest) (c :: key)
  | letter {c : Char} {rest key : List Char} (h : StandsFor rest key) :
      StandsFor ('\\' :: c :: rest) (ofLetter c :: key)
  | plain {c : Char} {rest key : List Char} (backslash : c ≠ '\\')
      (separator : isSeparator c = false) (blank : isBlank c = false) (h : StandsFor rest key) :
      StandsFor (c :: rest) (c :: key)

theorem ne_of_hexDigit? {c : Char} {n : Nat} (h : Text.hexDigit? c = some n) :
    c ≠ '=' ∧ c ≠ '\\' := by
  constructor
  · rintro rfl
    cases h
  · rintro rfl
    cases h

theorem ne_of_codeUnit? {a b c d : Char} {unit : Nat} (h : codeUnit? a b c d = some unit) :
    ∀ x ∈ [a, b, c, d], x ≠ '=' ∧ x ≠ '\\' := by
  have first : a ≠ '=' ∧ a ≠ '\\' := by
    by_cases sign : a = '+'
    · subst sign
      decide
    · simp only [codeUnit?, if_neg sign, Option.bind_eq_bind, Option.bind_eq_some_iff] at h
      obtain ⟨_, ha, -⟩ := h
      exact ne_of_hexDigit? ha
  have others : ∃ y z w, Text.hexDigit? b = some y ∧ Text.hexDigit? c = some z ∧
      Text.hexDigit? d = some w := by
    by_cases sign : a = '+'
    · simp only [codeUnit?, if_pos sign, Option.bind_eq_bind, Option.bind_eq_some_iff] at h
      obtain ⟨_, -, y, hb, z, hc, w, hd, -⟩ := h
      exact ⟨y, z, w, hb, hc, hd⟩
    · simp only [codeUnit?, if_neg sign, Option.bind_eq_bind, Option.bind_eq_some_iff] at h
      obtain ⟨_, -, y, hb, z, hc, w, hd, -⟩ := h
      exact ⟨y, z, w, hb, hc, hd⟩
  obtain ⟨y, z, w, hb, hc, hd⟩ := others
  simp only [List.forall_mem_cons]
  exact ⟨first, ne_of_hexDigit? hb, ne_of_hexDigit? hc, ne_of_hexDigit? hd, nofun⟩

theorem IsRawKey.of_cons {c : Char} {rest : List Char} (h : IsRawKey (c :: rest))
    (backslash : c ≠ '\\') : IsRawKey rest := by
  cases h with
  | trailing => exact absurd rfl backslash
  | pair => exact absurd rfl backslash
  | plain _ _ _ tail => exact tail

/-- Behind an escaped code unit the raw key goes on. -/
theorem IsRawKey.behind_unit {a b c d : Char} {rest : List Char} {unit : Nat}
    (h : IsRawKey ('\\' :: 'u' :: a :: b :: c :: d :: rest))
    (digits : codeUnit? a b c d = some unit) : IsRawKey rest := by
  have clear := ne_of_codeUnit? digits
  simp only [List.forall_mem_cons] at clear
  obtain ⟨⟨-, ha⟩, ⟨-, hb⟩, ⟨-, hc⟩, ⟨-, hd⟩, -⟩ := clear
  cases h with
  | pair tail => exact (((tail.of_cons ha).of_cons hb).of_cons hc).of_cons hd
  | plain backslash => exact absurd rfl backslash

theorem IsRawKey.behind_pair {c : Char} {rest : List Char} (h : IsRawKey ('\\' :: c :: rest)) :
    IsRawKey rest := by
  cases h with
  | pair tail => exact tail
  | plain backslash => exact absurd rfl backslash

theorem not_mem_unit {a b c d : Char} {unit : Nat} (digits : codeUnit? a b c d = some unit) :
    '=' ∉ ['\\', 'u', a, b, c, d] := by
  have clear := ne_of_codeUnit? digits
  simp only [List.forall_mem_cons] at clear
  simp [Ne.symm clear.1.1, Ne.symm clear.2.1.1, Ne.symm clear.2.2.1.1, Ne.symm clear.2.2.2.1.1]

/-- What a raw key is read as is what it stands for. -/
theorem IsRawKey.standsFor {raw key : List Char} (h : IsRawKey raw)
    (read : unescape? raw = some key) : StandsFor raw key := by
  fun_induction unescape? raw generalizing key with
  | case1 =>
    cases read
    exact .nil
  | case2 => cases read
  | case3 => cases read
  | case4 a b c d unit high _ e f g i rest low half _ ih =>
    obtain ⟨key, tail, rfl⟩ := Option.map_eq_some_iff.mp read
    have second : IsRawKey ('\\' :: 'u' :: e :: f :: g :: i :: rest) := h.behind_unit high
    have clear : '=' ∉ ['\\', 'u', a, b, c, d] ++ ['\\', 'u', e, f, g, i] := by
      rw [List.mem_append]
      exact not_or.mpr ⟨not_mem_unit high, not_mem_unit half⟩
    exact .unit (by simp) clear (ih (second.behind_unit half) tail)
  | case5 => cases read
  | case6 => cases read
  | case7 => cases read
  | case8 a b c d rest unit digits _ _ ih =>
    obtain ⟨key, tail, rfl⟩ := Option.map_eq_some_iff.mp read
    exact .unit (by simp) (not_mem_unit digits) (ih (h.behind_unit digits) tail)
  | case9 => cases read
  | case10 =>
    cases read
    exact .trailing
  | case11 c rest _ _ ih =>
    obtain ⟨key, tail, rfl⟩ := Option.map_eq_some_iff.mp read
    exact .letter (ih h.behind_pair tail)
  | case12 c rest _ _ last pair ih =>
    obtain ⟨key, tail, rfl⟩ := Option.map_eq_some_iff.mp read
    cases h with
    | trailing => exact (last rfl rfl).elim
    | pair => exact (pair _ _ rfl rfl).elim
    | plain backslash separator blank h => exact .plain backslash separator blank (ih h tail)

theorem isSeparator_iff {c : Char} : isSeparator c = true ↔ c = '=' ∨ c = ':' := by
  simp [isSeparator]

theorem ofLetter_of_separator {c : Char} (h : c = '=' ∨ c = ':') : ofLetter c = c := by
  rcases h with rfl | rfl <;> rfl

theorem length_escapeChar_ofLetter {c : Char} (h : ¬ (c = '=' ∨ c = ':')) :
    (Key.escapeChar (ofLetter c)).length = 1 := by
  have other : ¬ (ofLetter c = '=' ∨ ofLetter c = ':') := by
    simp only [ofLetter]
    repeat' split
    all_goals first | decide | exact h
  rw [Key.escapeChar, if_neg other]
  split <;> rfl

/-- A key is stored in fewer characters than a raw key that stands for it, unless it is stored as
the raw key. -/
theorem StandsFor.length_lt_or_eq {raw key : List Char} (h : StandsFor raw key) :
    (Key.escape key).length < raw.length ∨
      Key.escape key = raw ∧ ∀ c ∈ key, c ≠ '\\' ∧ isBlank c = false := by
  -- Only the escape of a separator and a character that is not escaped give back what they take.
  induction h with
  | nil => exact .inr ⟨rfl, nofun⟩
  | trailing => exact .inl (by decide)
  | @unit units rest key c long _ _ ih =>
    have first := (Key.length_escapeChar c).2
    have others : (Key.escape key).length ≤ rest.length := by
      rcases ih with shorter | ⟨same, -⟩
      · exact Nat.le_of_lt shorter
      · exact Nat.le_of_eq (congrArg List.length same)
    refine .inl ?_
    rw [Key.escape_cons, List.length_append, List.length_append]
    omega
  | @letter c rest key _ ih =>
    by_cases separator : c = '=' ∨ c = ':'
    · rw [ofLetter_of_separator separator, Key.escape_cons, Key.escapeChar_separator separator]
      rcases ih with shorter | ⟨same, clear⟩
      · exact .inl (by simpa using shorter)
      · refine .inr ⟨by rw [same]; rfl, ?_⟩
        rw [List.forall_mem_cons]
        refine ⟨?_, clear⟩
        rcases separator with rfl | rfl <;> decide
    · have first := length_escapeChar_ofLetter separator
      refine .inl ?_
      rw [Key.escape_cons, List.length_append, first, List.length_cons, List.length_cons]
      rcases ih with shorter | ⟨same, -⟩
      · omega
      · rw [same]
        omega
  | @plain c rest key backslash separator blank _ ih =>
    have space : c ≠ ' ' := by
      rintro rfl
      cases blank
    have other : ¬ (c = '=' ∨ c = ':') := by
      rw [← isSeparator_iff, separator]
      exact Bool.false_ne_true
    rw [Key.escape_cons, Key.escapeChar_other space other]
    rcases ih with shorter | ⟨same, clear⟩
    · exact .inl (by simpa using shorter)
    · refine .inr ⟨by rw [same]; rfl, ?_⟩
      rw [List.forall_mem_cons]
      exact ⟨⟨backslash, blank⟩, clear⟩

theorem StandsFor.eq_nil {raw key : List Char} (h : StandsFor raw key) (empty : raw = []) :
    key = [] := by
  cases h with
  | nil => rfl
  | trailing => cases empty
  | unit long =>
    rw [List.append_eq_nil_iff.mp empty |>.1] at long
    cases long
  | letter => cases empty
  | plain => cases empty

/-- An equals sign at the end of a raw key is one at the end of the key. -/
theorem StandsFor.getLast?_eq {raw key : List Char} (h : StandsFor raw key)
    (last : raw.getLast? = some '=') : key.getLast? = some '=' := by
  induction h with
  | nil => cases last
  | trailing => exact absurd last (by decide)
  | @unit units rest key c _ equals _ ih =>
    rw [List.getLast?_append, Option.or_eq_some_iff] at last
    rcases last with last | ⟨-, last⟩
    · rw [List.getLast?_cons, ih last]
      rfl
    · exact absurd (List.mem_of_getLast? last) equals
  | @letter c rest key tail ih =>
    rw [List.getLast?_cons_cons, List.getLast?_cons] at last
    rw [List.getLast?_cons]
    cases rest with
    | nil =>
      cases last
      rw [tail.eq_nil rfl]
      rfl
    | cons d rest =>
      rw [ih (by simpa [List.getLast?_cons] using last)]
      rfl
  | @plain c rest key _ separator _ tail ih =>
    rw [List.getLast?_cons] at last ⊢
    cases rest with
    | nil =>
      cases last
      cases separator
    | cons d rest =>
      rw [ih (by simpa [List.getLast?_cons] using last)]
      rfl

/-- Only behind a backslash an equals sign is part of a raw key. -/
theorem IsRawKey.getLast?_of_concat {raw : List Char} (h : IsRawKey (raw ++ ['='])) :
    raw.getLast? = some '\\' := by
  generalize whole : raw ++ ['='] = text at h
  induction h generalizing raw with
  | nil => simp at whole
  | trailing => cases raw <;> simp at whole
  | @pair c rest _ ih =>
    match raw with
    | [] => simp at whole
    | [a] =>
      obtain ⟨rfl, -⟩ := List.cons.inj whole
      rfl
    | a :: b :: raw =>
      simp only [List.cons_append, List.cons.injEq] at whole
      rw [List.getLast?_cons_cons, List.getLast?_cons, ih whole.2.2]
      rfl
  | @plain c rest _ separator _ _ ih =>
    cases raw with
    | nil =>
      cases whole
      cases separator
    | cons a raw =>
      rw [List.getLast?_cons, ih (List.cons.inj whole).2]
      rfl

/-! ## Stored forms as raw keys -/

theorem spanKey_pair (c : Char) (rest : List Char) :
    spanKey ('\\' :: c :: rest) = ('\\' :: c :: (spanKey rest).1, (spanKey rest).2) := rfl

theorem spanKey_plain {c : Char} (backslash : c ≠ '\\')
    (stop : (isSeparator c || isBlank c) = false) (rest : List Char) :
    spanKey (c :: rest) = (c :: (spanKey rest).1, (spanKey rest).2) := by
  rw [spanKey.eq_3 c rest fun _ _ h => absurd h backslash, if_neg (Bool.eq_false_iff.mp stop)]

theorem unescape?_letter {c : Char} (unit : c ≠ 'u') (rest : List Char) :
    unescape? ('\\' :: c :: rest) = (unescape? rest).map (ofLetter c :: ·) := by
  rw [unescape?.eq_5 c rest (fun _ _ _ _ _ h => absurd h unit) fun h => absurd h unit]

theorem unescape?_plain {c : Char} (backslash : c ≠ '\\') (rest : List Char) :
    unescape? (c :: rest) = (unescape? rest).map (c :: ·) := by
  rw [unescape?.eq_6 c rest (fun _ _ _ _ _ h => absurd h backslash) (fun _ h => absurd h backslash)
    (fun h => absurd h backslash) fun _ _ h => absurd h backslash]

/-- The stored form of a character before the rest of a raw key. -/
theorem spanKey_escapeChar {c : Char} (backslash : c ≠ '\\') (tab : c ≠ '\t') (feed : c ≠ '\x0c')
    (rest : List Char) :
    spanKey (Key.escapeChar c ++ rest)
      = (Key.escapeChar c ++ (spanKey rest).1, (spanKey rest).2) := by
  by_cases space : c = ' '
  · rw [space]
    exact spanKey_plain (by decide) rfl rest
  · by_cases separator : c = '=' ∨ c = ':'
    · rw [Key.escapeChar_separator separator]
      exact spanKey_pair c rest
    · rw [Key.escapeChar_other space separator]
      rw [← isSeparator_iff, Bool.not_eq_true] at separator
      exact spanKey_plain backslash (by simp [separator, isBlank, space, tab, feed]) rest

/-- A raw key ends behind a stored form without backslash escapes and blanks. -/
theorem spanKey_escape {text : List Char} (plain : '\\' ∉ text) (tab : '\t' ∉ text)
    (feed : '\x0c' ∉ text) (rest : List Char) :
    spanKey (Key.escape text ++ '=' :: rest) = (Key.escape text, '=' :: rest) := by
  induction text with
  | nil => rfl
  | cons c text ih =>
    rw [List.mem_cons, not_or] at plain tab feed
    rw [Key.escape_cons, List.append_assoc,
      spanKey_escapeChar (Ne.symm plain.1) (Ne.symm tab.1) (Ne.symm feed.1),
      ih plain.2 tab.2 feed.2]

/-- A stored form without backslash escapes is read with underscores in place of spaces. -/
theorem unescape?_escape {text : List Char} (plain : '\\' ∉ text) :
    unescape? (Key.escape text) = some (Key.underscored text) := by
  induction text with
  | nil => rfl
  | cons c text ih =>
    rw [List.mem_cons, not_or] at plain
    rw [Key.escape_cons, Key.underscored_cons]
    by_cases space : c = ' '
    · subst space
      change unescape? ('_' :: Key.escape text) = _
      rw [unescape?_plain (by decide), ih plain.2]
      rfl
    · by_cases separator : c = '=' ∨ c = ':'
      · have letter : c ≠ 'u' := by
          rcases separator with rfl | rfl <;> decide
        rw [Key.escapeChar_separator separator, if_neg space]
        change unescape? ('\\' :: c :: Key.escape text) = _
        rw [unescape?_letter letter, ih plain.2, ofLetter_of_separator separator]
        rfl
      · rw [Key.escapeChar_other space separator, if_neg space, List.singleton_append,
          unescape?_plain (Ne.symm plain.1), ih plain.2]
        rfl

end LocaleKeys.Properties
