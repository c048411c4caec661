import LocaleKeys.Proofs.Properties.Composition
import LocaleKeys.Proofs.Properties.UnitEscapes

/-!
# Logical lines are split in one way

A logical line is made of backslashes with what they take along and of other characters
(`IsPaired`), because none ends in an odd number of backslashes (`continues_of_mem_ofText`).
`Splits` is the grammar of such a line: a key, what separates it from the value, and the value.
There is one way to split a line by that grammar, and it is the way of the reader (`splits_iff`).
Neither the key nor the value ends in a backslash that takes nothing along, so the reader of
escapes, followed step by step in `Reads`, goes through both without leaving a character out
(`unescape?_eq_some_iff`).
-/

namespace LocaleKeys.Properties

open LogicalLine (continues continues_cons continues_pair continues_append gather OpenedBefore)

/-! ## Backslashes with what they take along -/

/-- Backslashes with the characters that they take along, and other characters of a class. -/
inductive IsPaired (plain : Char → Bool) : List Char → Prop where
  | nil : IsPaired plain []
  | pair {c : Char} {rest : List Char} (h : IsPaired plain rest) :
      IsPaired plain ('\\' :: c :: rest)
  | plain {c : Char} {rest : List Char} (backslash : c ≠ '\\') (free : plain c = true)
      (h : IsPaired plain rest) : IsPaired plain (c :: rest)

/-- The class of all characters. -/
def anyCharacter (_ : Char) : Bool := true

/-- The characters that end no key. -/
def staysInKey (c : Char) : Bool :=
  !isSeparator c && !isBlank c

theorem IsPaired.continues_eq {plain : Char → Bool} {text : List Char} (h : IsPaired plain text) :
    continues text = false := by
  induction h with
  | nil => rfl
  | pair _ ih => rwa [continues_pair]
  | plain backslash _ _ ih => rwa [continues_cons backslash]

/-- A text is paired if it does not end in an odd number of backslashes. -/
theorem isPaired_of_not_continues {text : List Char} (h : continues text = false) :
    IsPaired anyCharacter text := by
  match text with
  | [] => exact .nil
  | [c] =>
    refine .plain ?_ rfl .nil
    rintro rfl
    cases h
  | c :: d :: rest =>
    by_cases backslash : c = '\\'
    · subst backslash
      rw [continues_pair] at h
      exact .pair (isPaired_of_not_continues h)
    · rw [continues_cons backslash] at h
      exact .plain backslash rfl (isPaired_of_not_continues h)

theorem isPaired_iff {text : List Char} :
    IsPaired anyCharacter text ↔ continues text = false :=
  ⟨IsPaired.continues_eq, isPaired_of_not_continues⟩

/-! ## Logical lines -/

namespace LogicalLine

theorem continues_of_mem_gather {line : Nat} {opened : Option LogicalLine}
    (h : OpenedBefore line opened) {naturals : List (List Char)} {logical : LogicalLine}
    (inside : logical ∈ gather line opened naturals) : continues logical.text = false := by
  induction naturals generalizing line opened with
  | nil =>
    rw [gather, Option.mem_toList] at inside
    exact (h logical inside).1
  | cons natural naturals ih =>
    cases entry : inEntry opened.isSome natural with
    | false =>
      rw [gather_of_not_inEntry entry] at inside
      exact ih (openedBefore_none _) inside
    | true =>
      rw [gather_inEntry entry] at inside
      split at inside
      · next odd =>
        refine ih ?_ inside
        rintro _ ⟨⟩
        exact ⟨continues_dropLast odd, h.upTo.2⟩
      · next even =>
        rcases List.mem_cons.mp inside with rfl | inside
        · exact Bool.eq_false_iff.mpr even
        · exact ih (openedBefore_none _) inside

/-- No logical line ends in an odd number of backslashes, whether it is complete or ends with the
file. -/
theorem continues_of_mem_ofText {text : List Char} {logical : LogicalLine}
    (h : logical ∈ ofText text) : continues logical.text = false :=
  continues_of_mem_gather (openedBefore_none 1) h

end LogicalLine

/-! ## Keys and values -/

/-- Blanks, with at most one separator between them. -/
inductive IsSeparation : List Char → Prop where
  | blanks {blanks : List Char} (h : ∀ c ∈ blanks, isBlank c = true) : IsSeparation blanks
  | mark {before after : List Char} {c : Char} (h : ∀ d ∈ before, isBlank d = true)
      (separator : isSeparator c = true) (h' : ∀ d ∈ after, isBlank d = true) :
      IsSeparation (before ++ c :: after)

/-- The key and the value of a logical line, and what separates them. -/
structure Splits (text key separation value : List Char) : Prop where
  whole : text = key ++ (separation ++ value)
  isPaired : IsPaired staysInKey key
  isSeparation : IsSeparation separation
  separated : separation = [] → value = []
  begins : ∀ c ∈ value.head?, isBlank c = false ∧
    ((∀ d ∈ separation, isSeparator d = false) → isSeparator c = false)

theorem isBlank_of_isSeparator {c : Char} (h : isSeparator c = true) : isBlank c = false := by
  rcases isSeparator_iff.mp h with rfl | rfl <;> rfl

theorem isSeparator_of_isBlank {c : Char} (h : isBlank c = true) : isSeparator c = false := by
  rcases isBlank_eq_true_iff.mp h with rfl | rfl | rfl <;> rfl

theorem staysInKey_eq_false_iff {c : Char} :
    staysInKey c = false ↔ isSeparator c = true ∨ isBlank c = true := by
  simp only [staysInKey, Bool.and_eq_false_iff, Bool.not_eq_false']

/-- A key ends where a character ends it or the line does. -/
theorem spanKey_append_of_isPaired {key : List Char} (h : IsPaired staysInKey key)
    {after : List Char} (ends : ∀ c ∈ after.head?, staysInKey c = false) :
    spanKey (key ++ after) = (key, after) := by
  induction h with
  | nil =>
    cases after with
    | nil => rfl
    | cons c rest =>
      have stop := staysInKey_eq_false_iff.mp (ends c rfl)
      have backslash : c ≠ '\\' := by
        rintro rfl
        rcases stop with stop | stop <;> cases stop
      rw [List.nil_append, spanKey.eq_3 c rest fun _ _ h => absurd h backslash,
        if_pos (by simpa using stop)]
  | pair _ ih => rw [List.cons_append, List.cons_append, spanKey_pair, ih]
  | plain backslash free _ ih =>
    have stays := Bool.and_eq_true_iff.mp free
    rw [List.cons_append, spanKey_plain backslash (by simpa using stays), ih]

/-- The key that the reader takes off a line is one, unless the line ends in a backslash that takes
nothing along. -/
theorem isPaired_spanKey {text : List Char} (h : continues text = false) :
    IsPaired staysInKey (spanKey text).1 := by
  fun_induction spanKey text with
  | case1 => exact .nil
  | case2 c rest key after split ih =>
    rw [continues_pair] at h
    have tail := ih h
    rw [split] at tail
    exact .pair tail
  | case3 => exact .nil
  | case4 c rest single stop key after split ih =>
    have backslash : c ≠ '\\' := by
      rintro rfl
      cases rest with
      | nil => cases h
      | cons d rest => exact single d rest rfl rfl
    rw [continues_cons backslash] at h
    have tail := ih h
    rw [split] at tail
    exact .plain backslash (by simpa [staysInKey] using stop) tail

theorem staysInKey_of_head_spanKey (text : List Char) :
    ∀ c ∈ (spanKey text).2.head?, staysInKey c = false := by
  fun_induction spanKey text with
  | case1 =>
    intro c head
    cases head
  | case2 c rest key after split ih =>
    rwa [split] at ih
  | case3 c rest single stop =>
    rintro _ ⟨⟩
    rw [staysInKey_eq_false_iff]
    simpa using stop
  | case4 c rest single stop key after split ih =>
    rwa [split] at ih

/-- Blanks in front of a text that begins with none are all blanks there. -/
theorem dropWhile_isBlank_front {blanks rest : List Char} (h : ∀ c ∈ blanks, isBlank c = true)
    (begins : ∀ c ∈ rest.head?, isBlank c = false) :
    (blanks ++ rest).dropWhile isBlank = rest := by
  rw [List.dropWhile_append_of_pos h, Text.dropWhile_eq_self begins]

theorem afterSeparator_mark {before after : List Char} {c : Char}
    (h : ∀ d ∈ before, isBlank d = true) (separator : isSeparator c = true) :
    afterSeparator (before ++ c :: after) = after.dropWhile isBlank := by
  have first : ∀ d ∈ (c :: after).head?, isBlank d = false := by
    rintro _ ⟨⟩
    exact isBlank_of_isSeparator separator
  rw [afterSeparator, dropWhile_isBlank_front h first]
  exact if_pos separator

theorem afterSeparator_blanks {blanks value : List Char} (h : ∀ c ∈ blanks, isBlank c = true)
    (begins : ∀ c ∈ value.head?, isBlank c = false ∧ isSeparator c = false) :
    afterSeparator (blanks ++ value) = value := by
  rw [afterSeparator, dropWhile_isBlank_front h fun c head => (begins c head).1]
  cases value with
  | nil => rfl
  | cons c rest => exact if_neg (by simp [(begins c rfl).2])

/-- Behind a key the reader finds the value of a line that is split. -/
theorem Splits.afterSeparator_eq {text key separation value : List Char}
    (h : Splits text key separation value) : afterSeparator (separation ++ value) = value := by
  obtain ⟨-, -, isSeparation, -, begins⟩ := h
  cases isSeparation with
  | blanks blank =>
    refine afterSeparator_blanks blank fun c head => ⟨(begins c head).1, (begins c head).2 ?_⟩
    exact fun d inside => isSeparator_of_isBlank (blank d inside)
  | mark blank separator blank' =>
    rw [List.append_assoc, List.cons_append, afterSeparator_mark blank separator,
      dropWhile_isBlank_front blank' fun c head => (begins c head).1]

/-- What follows a key begins with what separates it from the value. -/
theorem Splits.staysInKey_of_head {text key separation value : List Char}
    (h : Splits text key separation value) :
    ∀ c ∈ (separation ++ value).head?, staysInKey c = false := by
  obtain ⟨-, -, isSeparation, separated, -⟩ := h
  intro c head
  rw [staysInKey_eq_false_iff]
  cases isSeparation with
  | blanks blank =>
    cases separation with
    | nil =>
      rw [separated rfl] at head
      cases head
    | cons d separation =>
      obtain rfl : d = c := Option.some.inj head
      exact .inr (blank d List.mem_cons_self)
  | @mark before after d blank separator _ =>
    cases before with
    | nil =>
      obtain rfl : d = c := Option.some.inj head
      exact .inl separator
    | cons e before =>
      obtain rfl : e = c := Option.some.inj head
      exact .inr (blank e List.mem_cons_self)

/-- However a line is split, that is what the reader makes of it. -/
theorem Splits.splitKeyValue_eq {text key separation value : List Char}
    (h : Splits text key separation value) : splitKeyValue text = (key, value) := by
  rw [splitKeyValue, h.whole, spanKey_append_of_isPaired h.isPaired h.staysInKey_of_head]
  exact congrArg (Prod.mk key) h.afterSeparator_eq

/-- A text begins with blanks, none of which follows them. -/
theorem exists_blanks (text : List Char) :
    ∃ blanks rest, text = blanks ++ rest ∧ (∀ c ∈ blanks, isBlank c = true) ∧
      ∀ c ∈ rest.head?, isBlank c = false := by
  refine ⟨text.takeWhile isBlank, text.dropWhile isBlank, List.takeWhile_append_dropWhile.symm,
    fun c => List.mem_takeWhile_imp, fun c head => ?_⟩
  have begins := List.head?_dropWhile_not isBlank text
  rw [head] at begins
  exact begins

/-- What the reader skips behind a key separates the key from the value. -/
theorem exists_splits {text key after : List Char} (whole : text = key ++ after)
    (isPaired : IsPaired staysInKey key) (ends : ∀ c ∈ after.head?, staysInKey c = false) :
    ∃ separation, Splits text key separation (afterSeparator after) := by
  subst whole
  obtain ⟨blanks, rest, rfl, blank, begins⟩ := exists_blanks after
  cases rest with
  | nil =>
    have value : afterSeparator (blanks ++ []) = [] := afterSeparator_blanks blank nofun
    rw [value]
    exact ⟨blanks, rfl, isPaired, .blanks blank, fun _ => rfl, nofun⟩
  | cons c rest =>
    by_cases separator : isSeparator c = true
    · obtain ⟨blanks', value, rfl, blank', begins'⟩ := exists_blanks rest
      rw [afterSeparator_mark blank separator, dropWhile_isBlank_front blank' begins']
      refine ⟨blanks ++ c :: blanks', by simp, isPaired, .mark blank separator blank', by simp,
        fun d head => ⟨begins' d head, fun none => ?_⟩⟩
      rw [none c (by simp)] at separator
      cases separator
    · have plain : ∀ d ∈ (c :: rest).head?, isBlank d = false ∧ isSeparator d = false := by
        rintro _ ⟨⟩
        exact ⟨begins c rfl, Bool.eq_false_iff.mpr separator⟩
      rw [afterSeparator_blanks blank plain]
      refine ⟨blanks, rfl, isPaired, .blanks blank, ?_, fun d head => ?_⟩
      · -- Without a blank the character would be part of the key.
        rintro rfl
        rcases staysInKey_eq_false_iff.mp (ends c rfl) with stop | stop
        · exact absurd stop separator
        · rw [begins c rfl] at stop
          cases stop
      · exact ⟨(plain d head).1, fun _ => (plain d head).2⟩

/-- A line that does not end in an odd number of backslashes can be split in one way, which is that
of the reader. -/
theorem splits_iff {text : List Char} (h : continues text = false) :
    ∃ separation, ∀ key separation' value, Splits text key separation' value ↔
      (key, value) = splitKeyValue text ∧ separation' = separation := by
  obtain ⟨separation, splits⟩ := exists_splits (spanKey_append text).symm (isPaired_spanKey h)
    (staysInKey_of_head_spanKey text)
  refine ⟨separation, fun key separation' value => ⟨fun splits' => ?_, ?_⟩⟩
  · have same := splits'.splitKeyValue_eq
    refine ⟨same.symm, ?_⟩
    obtain ⟨rfl, rfl⟩ := Prod.mk.inj (same.symm.trans splits.splitKeyValue_eq)
    exact List.append_cancel_right (List.append_cancel_left (splits'.whole.symm.trans splits.whole))
  · rintro ⟨same, rfl⟩
    obtain ⟨rfl, rfl⟩ := Prod.mk.inj (same.trans splits.splitKeyValue_eq)
    exact splits

/-! ## Reading a key or a value -/

/-- One step of the reader of escapes takes a character of the raw text, or an escape of one. -/
inductive Takes : List Char → Char → List Char → Prop where
  | plain {c : Char} {rest : List Char} (backslash : c ≠ '\\') : Takes (c :: rest) c rest
  | letter {c : Char} {rest : List Char} (unit : c ≠ 'u') :
      Takes ('\\' :: c :: rest) (ofLetter c) rest
  | unit {a b c d : Char} {rest : List Char} {unit : Nat} (digits : codeUnit? a b c d = some unit)
      (high : Text.isHighSurrogate unit = false) (low : Text.isLowSurrogate unit = false) :
      Takes ('\\' :: 'u' :: a :: b :: c :: d :: rest) (Char.ofNat unit) rest
  | surrogates {a b c d e f g h : Char} {rest : List Char} {unit unit' : Nat}
      (digits : codeUnit? a b c d = some unit) (digits' : codeUnit? e f g h = some unit')
      (high : Text.isHighSurrogate unit = true) (low : Text.isLowSurrogate unit' = true) :
      Takes ('\\' :: 'u' :: a :: b :: c :: d :: '\\' :: 'u' :: e :: f :: g :: h :: rest)
        (Text.ofSurrogates unit unit') rest

/-- The reader of escapes has read `text` off a raw text, and `rest` is still to come. -/
inductive Reads : List Char → List Char → List Char → Prop where
  | nil (raw : List Char) : Reads raw [] raw
  | cons {raw next text rest : List Char} {c : Char} (first : Takes raw c next)
      (more : Reads next text rest) : Reads raw (c :: text) rest

theorem Takes.unescape?_eq {raw rest : List Char} {c : Char} (h : Takes raw c rest) :
    unescape? raw = (unescape? rest).map (c :: ·) := by
  cases h with
  | plain backslash => exact unescape?_plain backslash rest
  | letter unit => exact unescape?_letter unit rest
  | unit digits high low => simp only [unescape?, digits, high, low, if_false, Bool.false_eq_true]
  | surrogates digits digits' high low => simp only [unescape?, digits, digits', high, low, if_true]

/-- Whatever has been read, the rest is read as it is read alone. -/
theorem Reads.unescape?_eq {raw text rest : List Char} (h : Reads raw text rest) :
    unescape? raw = (unescape? rest).map (text ++ ·) := by
  induction h with
  | nil raw => simp
  | cons first _ ih => rw [first.unescape?_eq, ih, Option.map_map]; rfl

/-- A raw text that is read is read step by step, to its end or to a backslash that takes nothing
along. -/
theorem unescape?_eq_some_iff {raw text : List Char} :
    unescape? raw = some text ↔ Reads raw text [] ∨ Reads raw text ['\\'] := by
  constructor
  · intro read
    fun_induction unescape? raw generalizing text with
    | case1 =>
      cases read
      exact .inl (.nil _)
    | case2 => cases read
    | case3 => cases read
    | case4 a b c d unit digits high e f g h rest unit' digits' low ih =>
      obtain ⟨text, tail, rfl⟩ := Option.map_eq_some_iff.mp read
      exact (ih tail).imp (.cons (.surrogates digits digits' high low))
        (.cons (.surrogates digits digits' high low))
    | case5 => cases read
    | case6 => cases read
    | case7 => cases read
    | case8 a b c d rest unit digits high low ih =>
      obtain ⟨text, tail, rfl⟩ := Option.map_eq_some_iff.mp read
      have first : Takes _ _ rest :=
        .unit digits (Bool.eq_false_iff.mpr high) (Bool.eq_false_iff.mpr low)
      exact (ih tail).imp (.cons first) (.cons first)
    | case9 => cases read
    | case10 =>
      cases read
      exact .inr (.nil _)
    | case11 c rest _ unit ih =>
      obtain ⟨text, tail, rfl⟩ := Option.map_eq_some_iff.mp read
      exact (ih tail).imp (.cons (.letter unit)) (.cons (.letter unit))
    | case12 c rest _ _ last pair ih =>
      obtain ⟨text, tail, rfl⟩ := Option.map_eq_some_iff.mp read
      have backslash : c ≠ '\\' := by
        rintro rfl
        cases rest with
        | nil => exact last rfl rfl
        | cons d rest => exact pair d rest rfl rfl
      exact (ih tail).imp (.cons (.plain backslash)) (.cons (.plain backslash))
  · rintro (read | read)
    · rw [read.unescape?_eq]
      simp [unescape?]
    · rw [read.unescape?_eq]
      simp [unescape?]

/-- A step takes backslashes with what they take along, or none. -/
theorem Takes.continues_eq {raw rest : List Char} {c : Char} (h : Takes raw c rest) :
    continues rest = continues raw := by
  have behind : ∀ {a b c d : Char} {unit : Nat} (rest : List Char),
      codeUnit? a b c d = some unit →
        continues ('\\' :: 'u' :: a :: b :: c :: d :: rest) = continues rest := by
    intro a b c d unit rest digits
    have clear := clear_of_codeUnit? digits
    simp only [List.forall_mem_cons] at clear
    obtain ⟨ha, hb, hc, hd, -⟩ := clear
    rw [continues_pair, continues_cons ha, continues_cons hb, continues_cons hc, continues_cons hd]
  cases h with
  | plain backslash => rw [continues_cons backslash]
  | letter => rw [continues_pair]
  | unit digits => rw [behind _ digits]
  | surrogates digits digits' => rw [behind _ digits, behind _ digits']

theorem Reads.continues_eq {raw text rest : List Char} (h : Reads raw text rest) :
    continues rest = continues raw := by
  induction h with
  | nil => rfl
  | cons first _ ih => rw [ih, first.continues_eq]

/-- A raw text that is paired never leaves the reader with a backslash that takes nothing along. -/
theorem IsPaired.not_reads {plain : Char → Bool} {raw : List Char} (h : IsPaired plain raw)
    (text : List Char) : ¬ Reads raw text ['\\'] := by
  intro read
  have odd := read.continues_eq
  rw [h.continues_eq] at odd
  cases odd

theorem continues_of_clear {text : List Char} (h : ∀ c ∈ text, c ≠ '\\') :
    continues text = false := by
  induction text with
  | nil => rfl
  | cons c text ih =>
    rw [List.forall_mem_cons] at h
    rw [continues_cons h.1, ih h.2]

theorem IsSeparation.continues_eq {separation : List Char} (h : IsSeparation separation) :
    continues separation = false := by
  have clear : ∀ c, isSeparator c = true ∨ isBlank c = true → c ≠ '\\' := by
    rintro _ stop rfl
    rcases stop with stop | stop <;> cases stop
  apply continues_of_clear
  cases h with
  | blanks blank => exact fun c inside => clear c (.inr (blank c inside))
  | mark blank separator blank' =>
    rw [List.forall_mem_append, List.forall_mem_cons]
    exact ⟨fun c inside => clear c (.inr (blank c inside)), clear _ (.inl separator),
      fun c inside => clear c (.inr (blank' c inside))⟩

/-- The value ends as the line does. -/
theorem Splits.isPaired_value {text key separation value : List Char}
    (h : Splits text key separation value) (even : continues text = false) :
    IsPaired anyCharacter value := by
  rw [h.whole, continues_append h.isPaired.continues_eq,
    continues_append h.isSeparation.continues_eq] at even
  exact isPaired_iff.mpr even

/-- A logical line of a file is split by the grammar in one way, which is that of the reader. The
value is made of backslashes with what they take along and of other characters, as the key is. So
neither leaves the reader of escapes with a backslash that takes nothing along, and each stands for
a text exactly if it can be read to its end, character by character. -/
theorem splitKeyValue_unique {text : List Char} {logical : LogicalLine}
    (h : logical ∈ LogicalLine.ofText text) :
    (∃ separation, ∀ key separation' value, Splits logical.text key separation' value ↔
      (key, value) = splitKeyValue logical.text ∧ separation' = separation) ∧
    IsPaired anyCharacter (splitKeyValue logical.text).2 ∧
    ∀ raw ∈ [(splitKeyValue logical.text).1, (splitKeyValue logical.text).2],
      (∀ read, ¬ Reads raw read ['\\']) ∧
        ∀ read, unescape? raw = some read ↔ Reads raw read [] := by
  have even := LogicalLine.continues_of_mem_ofText h
  obtain ⟨separation, unique⟩ := splits_iff even
  have splits := (unique _ separation _).mpr ⟨rfl, rfl⟩
  have value := splits.isPaired_value even
  have sound : ∀ {plain : Char → Bool} {raw : List Char}, IsPaired plain raw →
      (∀ read, ¬ Reads raw read ['\\']) ∧
        ∀ read, unescape? raw = some read ↔ Reads raw read [] := by
    intro plain raw paired
    refine ⟨paired.not_reads, fun read => ?_⟩
    rw [unescape?_eq_some_iff, or_iff_left (paired.not_reads read)]
  refine ⟨⟨separation, unique⟩, value, ?_⟩
  rw [List.forall_mem_cons, List.forall_mem_singleton]
  exact ⟨sound splits.isPaired, sound value⟩

/-- A line that the end of the file leaves open, with an escaped blank in the key and separators at
the start of the value. -/
theorem splitKeyValue_unique_open :
    let text := "a\\ b\\\n  = := c\\\\\\".toList
    let logical : LogicalLine := ⟨"a\\ b= := c\\\\".toList, 1⟩
    logical ∈ LogicalLine.ofText text ∧
      splitKeyValue logical.text = ("a\\ b".toList, ":= c\\\\".toList) ∧
      (∃ separation, ∀ key separation' value, Splits logical.text key separation' value ↔
        (key, value) = splitKeyValue logical.text ∧ separation' = separation) ∧
      IsPaired anyCharacter (splitKeyValue logical.text).2 ∧
      ∀ raw ∈ [(splitKeyValue logical.text).1, (splitKeyValue logical.text).2],
        (∀ read, ¬ Reads raw read ['\\']) ∧
          ∀ read, unescape? raw = some read ↔ Reads raw read [] := by
  intro text logical
  have inside : logical ∈ LogicalLine.ofText text := by decide
  exact ⟨inside, by decide, splitKeyValue_unique inside⟩

end LocaleKeys.Properties
