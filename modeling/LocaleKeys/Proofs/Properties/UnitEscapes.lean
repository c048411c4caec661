import LocaleKeys.Proofs.Properties.Escaping
import LocaleKeys.Proofs.Properties.KeyLine

/-!
# Escapes of code units

`WellEscaped` says of every place of a raw text where a backslash escapes the letter `u` that the
digits of a code unit follow and that surrogates come in pairs. A raw text stands for a text exactly
if it is well escaped (`isSome_unescape?_iff`), so a resource file is read unless a key or a value
is not, and the first such line is the one that is reported. What counts as digits is a parameter:
the rule is four hexadecimal digits (`hexUnit?`), and the reader takes a plus sign for the first of
them as well (`codeUnit?`). `parse_followsRule` says when that makes a difference.
-/

namespace LocaleKeys.Properties

open Text (hexDigit? isHighSurrogate isLowSurrogate)

/-- The code unit of four hexadecimal digits. -/
def hexUnit? (a b c d : Char) : Option Nat := do
  let a ← hexDigit? a
  let b ← hexDigit? b
  let c ← hexDigit? c
  let d ← hexDigit? d
  return ((a * 16 + b) * 16 + c) * 16 + d

/-! ## Well escaped texts -/

section

variable (read : Char → Char → Char → Char → Option Nat)

/-- The text begins with the digits of a code unit. -/
def BeginsUnit (text : List Char) (unit : Nat) (rest : List Char) : Prop :=
  ∃ a b c d, text = a :: b :: c :: d :: rest ∧ read a b c d = some unit

/-- The text begins with the escape of a low surrogate. -/
def LowFollows (text : List Char) : Prop :=
  ∃ after low rest, text = '\\' :: 'u' :: after ∧ BeginsUnit read after low rest ∧
    isLowSurrogate low = true

/-- The text ends in the escape of a high surrogate. -/
def HighPrecedes (text : List Char) : Prop :=
  ∃ before digits high, text = before ++ '\\' :: 'u' :: digits ∧ Unescaped before ∧
    BeginsUnit read digits high [] ∧ isHighSurrogate high = true

/-- A backslash and the letter `u` between two texts are the escape of a code unit, with its partner
if that is a surrogate. -/
def SoundUnit (before after : List Char) : Prop :=
  ∃ unit rest, BeginsUnit read after unit rest ∧
    (isHighSurrogate unit = true → LowFollows read rest) ∧
    (isLowSurrogate unit = true → HighPrecedes read before)

/-- Wherever a backslash escapes the letter `u` there is the escape of a code unit. -/
def WellEscaped (raw : List Char) : Prop :=
  ∀ before after, raw = before ++ '\\' :: 'u' :: after → Unescaped before →
    SoundUnit read before after

/-- The raw key and the raw value of a logical line are well escaped. -/
def LogicalLine.WellEscaped (logical : LogicalLine) : Prop :=
  Properties.WellEscaped read (splitKeyValue logical.text).1 ∧
    Properties.WellEscaped read (splitKeyValue logical.text).2

/-- The text is read if its logical lines are well escaped, and otherwise the first that is not is
reported. -/
structure FollowsRule (text : List Char) : Prop where
  ok_iff : (∃ entries, parse text = .ok entries) ↔
    ∀ logical ∈ LogicalLine.ofText text, logical.WellEscaped read
  error_iff : ∀ e, parse text = .error e ↔
    ∃ before logical after, LogicalLine.ofText text = before ++ logical :: after ∧
      (∀ earlier ∈ before, earlier.WellEscaped read) ∧ ¬ logical.WellEscaped read ∧
      e = ⟨logical.line⟩

end

section

variable {read : Char → Char → Char → Char → Option Nat}

theorem beginsUnit_cons_iff {a b c d : Char} {text rest : List Char} {unit : Nat} :
    BeginsUnit read (a :: b :: c :: d :: text) unit rest ↔
      read a b c d = some unit ∧ text = rest := by
  constructor
  · rintro ⟨_, _, _, _, same, digits⟩
    cases same
    exact ⟨digits, rfl⟩
  · rintro ⟨digits, rfl⟩
    exact ⟨a, b, c, d, rfl, digits⟩

theorem lowFollows_unit_iff {a b c d : Char} {rest : List Char} :
    LowFollows read ('\\' :: 'u' :: a :: b :: c :: d :: rest) ↔
      ∃ low, read a b c d = some low ∧ isLowSurrogate low = true := by
  constructor
  · rintro ⟨_, low, _, same, begins, isLow⟩
    cases same
    exact ⟨low, (beginsUnit_cons_iff.mp begins).1, isLow⟩
  · rintro ⟨low, digits, isLow⟩
    exact ⟨_, low, rest, rfl, beginsUnit_cons_iff.mpr ⟨digits, rfl⟩, isLow⟩

theorem not_highPrecedes_nil : ¬ HighPrecedes read [] := by
  rintro ⟨before, digits, high, split, -⟩
  simp at split

/-- A part of a raw text that ends at no place where something is taken along, and that changes
nothing for what follows. -/
structure Separate (read : Char → Char → Char → Char → Option Nat) (block : List Char) : Prop where
  unescaped_append : ∀ before, Unescaped before → Unescaped (block ++ before)
  highPrecedes_append : ∀ before, HighPrecedes read (block ++ before) ↔ HighPrecedes read before
  cut : ∀ before after rest, block ++ rest = before ++ '\\' :: 'u' :: after → Unescaped before →
    SoundUnit read before after ∨
      ∃ before', before = block ++ before' ∧ rest = before' ++ '\\' :: 'u' :: after ∧
        Unescaped before'

theorem Separate.soundUnit_append_iff {block : List Char} (h : Separate read block)
    (before after : List Char) :
    SoundUnit read (block ++ before) after ↔ SoundUnit read before after := by
  simp only [SoundUnit, h.highPrecedes_append]

/-- What follows a separate part is well escaped by itself. -/
theorem Separate.wellEscaped_append_iff {block : List Char} (h : Separate read block)
    (rest : List Char) : WellEscaped read (block ++ rest) ↔ WellEscaped read rest := by
  constructor
  · rintro sound before after rfl free
    rw [← h.soundUnit_append_iff]
    exact sound _ _ (List.append_assoc ..).symm (h.unescaped_append before free)
  · intro sound before after split free
    rcases h.cut before after rest split free with here | ⟨before', rfl, rest_eq, free'⟩
    · exact here
    · rw [h.soundUnit_append_iff]
      exact sound before' after rest_eq free'

theorem separate_plain {c : Char} (h : c ≠ '\\') : Separate read [c] := by
  have clear : ∀ d ∈ [c], d ≠ '\\' := by simpa using h
  refine ⟨fun before => (unescaped_cons_iff h).mpr, fun before => ?_, ?_⟩
  · constructor
    · rintro ⟨before', digits, high, split, free, rest⟩
      obtain ⟨before', rfl, split, free⟩ := cut_plain clear split free
      exact ⟨before', digits, high, split, free, rest⟩
    · rintro ⟨before', digits, high, rfl, free, rest⟩
      exact ⟨c :: before', digits, high, rfl, (unescaped_cons_iff h).mpr free, rest⟩
  · intro before after rest split free
    exact .inr (cut_plain clear split free)

theorem separate_letter {c : Char} (h : c ≠ 'u') : Separate read ['\\', c] := by
  refine ⟨fun before => unescaped_pair_iff.mpr, fun before => ?_, ?_⟩
  · constructor
    · rintro ⟨before', digits, high, split, free, rest⟩
      rcases cut_pair split free with ⟨rfl, unit⟩ | ⟨before', rfl, split, free⟩
      · exact absurd (List.cons.inj unit).1.symm h
      · exact ⟨before', digits, high, split, free, rest⟩
    · rintro ⟨before', digits, high, rfl, free, rest⟩
      exact ⟨'\\' :: c :: before', digits, high, rfl, unescaped_pair_iff.mpr free, rest⟩
  · intro before after rest split free
    rcases cut_pair split free with ⟨rfl, unit⟩ | behind
    · exact absurd (List.cons.inj unit).1.symm h
    · exact .inr behind

end

/-! ## The escapes that are read -/

theorem clear_of_codeUnit? {a b c d : Char} {unit : Nat} (h : codeUnit? a b c d = some unit) :
    ∀ x ∈ [a, b, c, d], x ≠ '\\' :=
  fun x inside => (ne_of_codeUnit? h x inside).2

section

variable {a b c d : Char} {unit : Nat}

theorem unescaped_unit_iff (digits : codeUnit? a b c d = some unit) {before : List Char} :
    Unescaped ('\\' :: 'u' :: a :: b :: c :: d :: before) ↔ Unescaped before := by
  have clear := clear_of_codeUnit? digits
  simp only [List.forall_mem_cons] at clear
  obtain ⟨ha, hb, hc, hd, -⟩ := clear
  rw [unescaped_pair_iff, unescaped_cons_iff ha, unescaped_cons_iff hb, unescaped_cons_iff hc,
    unescaped_cons_iff hd]

/-- The escape of a high surrogate that a text ends in is the escape in front of the text or stands
behind it. -/
theorem highPrecedes_unit_iff (digits : codeUnit? a b c d = some unit) (before : List Char) :
    HighPrecedes codeUnit? ('\\' :: 'u' :: a :: b :: c :: d :: before) ↔
      (before = [] ∧ isHighSurrogate unit = true) ∨ HighPrecedes codeUnit? before := by
  constructor
  · rintro ⟨before', digits', high, split, free, begins, isHigh⟩
    rcases cut_unit (clear_of_codeUnit? digits) split free with
      ⟨rfl, here⟩ | ⟨before', rfl, split, free⟩
    · obtain ⟨-, rfl⟩ := List.cons.inj here
      obtain ⟨read, rfl⟩ := beginsUnit_cons_iff.mp begins
      cases digits.symm.trans read
      exact .inl ⟨rfl, isHigh⟩
    · exact .inr ⟨before', digits', high, split, free, begins, isHigh⟩
  · rintro (⟨rfl, isHigh⟩ | ⟨before', digits', high, rfl, free, rest⟩)
    · exact ⟨[], _, unit, rfl, unescaped_nil, ⟨a, b, c, d, rfl, digits⟩, isHigh⟩
    · exact ⟨'\\' :: 'u' :: a :: b :: c :: d :: before', digits', high, rfl,
        (unescaped_unit_iff digits).mpr free, rest⟩

theorem separate_unit (digits : codeUnit? a b c d = some unit)
    (high : isHighSurrogate unit = false) (low : isLowSurrogate unit = false) :
    Separate codeUnit? ['\\', 'u', a, b, c, d] := by
  refine ⟨fun before => (unescaped_unit_iff digits).mpr, fun before => ?_, ?_⟩
  · exact (highPrecedes_unit_iff digits before).trans (or_iff_right (by simp [high]))
  · intro before after rest split free
    rcases cut_unit (clear_of_codeUnit? digits) split free with ⟨rfl, here⟩ | behind
    · obtain ⟨-, rfl⟩ := List.cons.inj here
      refine .inl ⟨unit, rest, ⟨a, b, c, d, rfl, digits⟩, ?_, ?_⟩
      · simp [high]
      · simp [low]
    · exact .inr behind

/-- A surrogate pair is separate, though neither of its halves is. -/
theorem separate_surrogates {e f g h : Char} {unit' : Nat}
    (digits : codeUnit? a b c d = some unit) (digits' : codeUnit? e f g h = some unit')
    (high : isHighSurrogate unit = true) (low : isLowSurrogate unit' = true) :
    Separate codeUnit? ['\\', 'u', a, b, c, d, '\\', 'u', e, f, g, h] := by
  have lowOnly : isHighSurrogate unit' = false := by
    simp only [isLowSurrogate, isHighSurrogate, Bool.and_eq_true, Bool.and_eq_false_iff,
      decide_eq_true_iff, decide_eq_false_iff_not] at low ⊢
    omega
  have highOnly : isLowSurrogate unit = false := by
    simp only [isLowSurrogate, isHighSurrogate, Bool.and_eq_true, Bool.and_eq_false_iff,
      decide_eq_true_iff, decide_eq_false_iff_not] at high ⊢
    omega
  refine ⟨fun before free => ?_, fun before => ?_, ?_⟩
  · exact (unescaped_unit_iff digits).mpr ((unescaped_unit_iff digits').mpr free)
  · refine (highPrecedes_unit_iff digits ('\\' :: 'u' :: e :: f :: g :: h :: before)).trans ?_
    rw [or_iff_right (by simp), highPrecedes_unit_iff digits', or_iff_right (by simp [lowOnly])]
  · intro before after rest split free
    rcases cut_unit (clear_of_codeUnit? digits) split free with
      ⟨rfl, here⟩ | ⟨before', rfl, split, free⟩
    · obtain ⟨-, rfl⟩ := List.cons.inj here
      refine .inl ⟨unit, _, ⟨a, b, c, d, rfl, digits⟩, fun _ => ?_, by simp [highOnly]⟩
      exact ⟨_, unit', rest, rfl, ⟨e, f, g, h, rfl, digits'⟩, low⟩
    · rcases cut_unit (clear_of_codeUnit? digits') split free with
        ⟨rfl, here⟩ | ⟨before', rfl, rest_eq, free⟩
      · obtain ⟨-, rfl⟩ := List.cons.inj here
        refine .inl ⟨unit', rest, ⟨e, f, g, h, rfl, digits'⟩, by simp [lowOnly], fun _ => ?_⟩
        exact ⟨[], _, unit, rfl, unescaped_nil, ⟨a, b, c, d, rfl, digits⟩, high⟩
      · exact .inr ⟨before', rfl, rest_eq, free⟩

end

/-- At the start of a text a backslash and the letter `u` are followed by digits. -/
theorem WellEscaped.soundUnit_nil {read : Char → Char → Char → Char → Option Nat}
    {after : List Char} (h : WellEscaped read ('\\' :: 'u' :: after)) : SoundUnit read [] after :=
  h [] after rfl unescaped_nil

/-- A code unit at the start of a text that is well escaped is no low surrogate, and a high one has
its partner. -/
theorem WellEscaped.exists_unit {read : Char → Char → Char → Char → Option Nat}
    {a b c d : Char} {rest : List Char}
    (h : WellEscaped read ('\\' :: 'u' :: a :: b :: c :: d :: rest)) :
    ∃ unit, read a b c d = some unit ∧ (isHighSurrogate unit = true → LowFollows read rest) ∧
      isLowSurrogate unit = false := by
  obtain ⟨unit, _, begins, high, low⟩ := h.soundUnit_nil
  obtain ⟨digits, rfl⟩ := beginsUnit_cons_iff.mp begins
  exact ⟨unit, digits, high, Bool.eq_false_iff.mpr fun isLow => not_highPrecedes_nil (low isLow)⟩

/-- A raw text stands for a text exactly if it is well escaped. -/
theorem isSome_unescape?_iff (raw : List Char) :
    (unescape? raw).isSome = true ↔ WellEscaped codeUnit? raw := by
  fun_induction unescape? raw with
  | case1 =>
    refine iff_of_true rfl fun before after split _ => ?_
    simp at split
  | case2 a b c d rest none =>
    refine iff_of_false Bool.false_ne_true fun sound => ?_
    obtain ⟨unit, some, -⟩ := sound.exists_unit
    cases none.symm.trans some
  | case3 a b c d unit digits high e f g h rest none =>
    refine iff_of_false Bool.false_ne_true fun sound => ?_
    obtain ⟨unit', again, partner, -⟩ := sound.exists_unit
    cases digits.symm.trans again
    obtain ⟨low, some, -⟩ := lowFollows_unit_iff.mp (partner high)
    cases none.symm.trans some
  | case4 a b c d unit digits high e f g h rest unit' digits' low ih =>
    rw [Option.isSome_map, ih]
    exact ((separate_surrogates digits digits' high low).wellEscaped_append_iff rest).symm
  | case5 a b c d unit digits high e f g h rest unit' digits' low =>
    refine iff_of_false Bool.false_ne_true fun sound => ?_
    obtain ⟨unit'', again, partner, -⟩ := sound.exists_unit
    cases digits.symm.trans again
    obtain ⟨low', again', isLow⟩ := lowFollows_unit_iff.mp (partner high)
    cases digits'.symm.trans again'
    exact low isLow
  | case6 a b c d rest unit digits high alone =>
    refine iff_of_false Bool.false_ne_true fun sound => ?_
    obtain ⟨unit', again, partner, -⟩ := sound.exists_unit
    cases digits.symm.trans again
    obtain ⟨_, _, _, rfl, ⟨_, _, _, _, rfl, -⟩, -⟩ := partner high
    exact alone _ _ _ _ _ rfl
  | case7 a b c d rest unit digits high low =>
    refine iff_of_false Bool.false_ne_true fun sound => ?_
    obtain ⟨unit', again, -, notLow⟩ := sound.exists_unit
    cases digits.symm.trans again
    cases low.symm.trans notLow
  | case8 a b c d rest unit digits high low ih =>
    rw [Option.isSome_map, ih]
    exact ((separate_unit digits (by simpa using high) (by simpa using low)).wellEscaped_append_iff
      rest).symm
  | case9 after short =>
    refine iff_of_false Bool.false_ne_true fun sound => ?_
    obtain ⟨_, _, ⟨_, _, _, _, rfl, -⟩, -⟩ := sound.soundUnit_nil
    exact short _ _ _ _ _ rfl
  | case10 =>
    refine iff_of_true rfl fun before after split _ => ?_
    have length := congrArg List.length split
    simp at length
    omega
  | case11 c rest _ letter ih =>
    rw [Option.isSome_map, ih]
    exact ((separate_letter letter).wellEscaped_append_iff rest).symm
  | case12 c rest _ _ last pair ih =>
    have plain : c ≠ '\\' := by
      rintro rfl
      cases rest with
      | nil => exact last rfl rfl
      | cons d rest => exact pair d rest rfl rfl
    rw [Option.isSome_map, ih]
    exact ((separate_plain plain).wellEscaped_append_iff rest).symm

/-! ## Files -/

/-- A logical line is read if its key and its value are well escaped. -/
theorem Entry.ofLine?_cases (logical : LogicalLine) :
    (logical.WellEscaped codeUnit? ∧ ∃ entry, Entry.ofLine? logical = .ok entry) ∨
      (¬ logical.WellEscaped codeUnit? ∧ Entry.ofLine? logical = .error ⟨logical.line⟩) := by
  rw [LogicalLine.WellEscaped, ← isSome_unescape?_iff, ← isSome_unescape?_iff]
  simp only [Entry.ofLine?]
  cases unescape? (splitKeyValue logical.text).1 with
  | none => exact .inr ⟨by simp, rfl⟩
  | some key =>
    cases unescape? (splitKeyValue logical.text).2 with
    | none => exact .inr ⟨by simp, rfl⟩
    | some value => exact .inl ⟨by simp, _, rfl⟩

theorem Entry.exists_ofLine?_eq_ok_iff {logical : LogicalLine} :
    (∃ entry, Entry.ofLine? logical = .ok entry) ↔ logical.WellEscaped codeUnit? := by
  rcases Entry.ofLine?_cases logical with ⟨sound, read⟩ | ⟨unsound, failed⟩
  · exact iff_of_true read sound
  · exact iff_of_false (by simp [failed]) unsound

theorem Entry.ofLine?_eq_error_iff {logical : LogicalLine} {e : MalformedEscape} :
    Entry.ofLine? logical = .error e ↔ ¬ logical.WellEscaped codeUnit? ∧ e = ⟨logical.line⟩ := by
  rcases Entry.ofLine?_cases logical with ⟨sound, entry, read⟩ | ⟨unsound, failed⟩
  · rw [read]
    exact iff_of_false nofun fun unsound => unsound.1 sound
  · rw [failed]
    constructor
    · intro same
      cases same
      exact ⟨unsound, rfl⟩
    · rintro ⟨-, rfl⟩
      rfl

/-- The reader follows the rule with a plus sign. -/
theorem followsRule_codeUnit? (text : List Char) : FollowsRule codeUnit? text := by
  refine ⟨?_, fun e => ?_⟩
  · simp only [parse, exists_mapM_eq_ok_iff, Entry.exists_ofLine?_eq_ok_iff]
  · simp only [parse, mapM_eq_error_iff, Entry.exists_ofLine?_eq_ok_iff,
      Entry.ofLine?_eq_error_iff]

/-! ## Plus signs -/

/-- Somewhere a plus sign stands for the first digit of a code unit. -/
def HasSign (raw : List Char) : Prop :=
  ∃ before after, raw = before ++ '\\' :: 'u' :: '+' :: after ∧ Unescaped before

theorem codeUnit?_eq_hexUnit? {a : Char} (sign : a ≠ '+') (b c d : Char) :
    codeUnit? a b c d = hexUnit? a b c d := by
  rw [codeUnit?, hexUnit?, if_neg sign]

theorem beginsUnit_hexUnit?_iff {text rest : List Char} {unit : Nat} :
    BeginsUnit hexUnit? text unit rest ↔
      BeginsUnit codeUnit? text unit rest ∧ text.head? ≠ some '+' := by
  constructor
  · rintro ⟨a, b, c, d, rfl, digits⟩
    have sign : a ≠ '+' := by
      rintro rfl
      cases digits
    exact ⟨⟨a, b, c, d, rfl, (codeUnit?_eq_hexUnit? sign b c d).trans digits⟩, by simpa using sign⟩
  · rintro ⟨⟨a, b, c, d, rfl, digits⟩, sign⟩
    have sign : a ≠ '+' := by simpa using sign
    exact ⟨a, b, c, d, rfl, (codeUnit?_eq_hexUnit? sign b c d).symm.trans digits⟩

/-- What is in order for a rule is in order for a wider one. -/
theorem SoundUnit.mono {read read' : Char → Char → Char → Char → Option Nat}
    (wider : ∀ {text unit rest}, BeginsUnit read text unit rest → BeginsUnit read' text unit rest)
    {before after : List Char} (h : SoundUnit read before after) :
    SoundUnit read' before after := by
  obtain ⟨unit, rest, begins, low, high⟩ := h
  refine ⟨unit, rest, wider begins, fun isHigh => ?_, fun isLow => ?_⟩
  · obtain ⟨after', partner, rest', same, begins', isLow⟩ := low isHigh
    exact ⟨after', partner, rest', same, wider begins', isLow⟩
  · obtain ⟨before', digits, partner, same, free, begins', isHigh⟩ := high isLow
    exact ⟨before', digits, partner, same, free, wider begins', isHigh⟩

/-- Behind the escape of a code unit nothing is taken along. -/
theorem unescaped_append_unit {text rest : List Char} {unit : Nat}
    (h : BeginsUnit codeUnit? text unit rest) (before : List Char) :
    ∃ digits, text = digits ++ rest ∧ Unescaped (before ++ '\\' :: 'u' :: digits) := by
  obtain ⟨a, b, c, d, rfl, digits⟩ := h
  refine ⟨[a, b, c, d], rfl, ?_⟩
  have last := LogicalLine.continues_concat (clear_of_codeUnit? digits d (by simp))
    (before ++ ['\\', 'u', a, b, c])
  rwa [List.append_assoc] at last

/-- The rule of four hexadecimal digits is the other one where no plus sign stands for a digit. -/
theorem wellEscaped_hexUnit?_iff (raw : List Char) :
    WellEscaped hexUnit? raw ↔ WellEscaped codeUnit? raw ∧ ¬ HasSign raw := by
  constructor
  · intro sound
    refine ⟨fun before after split free => ?_, ?_⟩
    · exact (sound before after split free).mono fun begins => (beginsUnit_hexUnit?_iff.mp begins).1
    · rintro ⟨before, after, split, free⟩
      obtain ⟨_, _, begins, -⟩ := sound before _ split free
      exact (beginsUnit_hexUnit?_iff.mp begins).2 rfl
  · rintro ⟨sound, unsigned⟩ before after split free
    have strict : ∀ {before text unit rest}, BeginsUnit codeUnit? text unit rest →
        (∃ behind, raw = before ++ '\\' :: 'u' :: (text ++ behind)) → Unescaped before →
        BeginsUnit hexUnit? text unit rest := by
      rintro before text unit rest begins ⟨behind, place⟩ free
      refine beginsUnit_hexUnit?_iff.mpr ⟨begins, fun sign => unsigned ?_⟩
      obtain ⟨tail, rfl⟩ := List.head?_eq_some_iff.mp sign
      exact ⟨before, tail ++ behind, place, free⟩
    obtain ⟨unit, rest, begins, low, high⟩ := sound before after split free
    refine ⟨unit, rest, strict begins ⟨[], by simpa using split⟩ free, fun isHigh => ?_,
      fun isLow => ?_⟩
    · obtain ⟨after', partner, rest', rfl, begins', isLow⟩ := low isHigh
      obtain ⟨digits, rfl, free'⟩ := unescaped_append_unit begins before
      exact ⟨after', partner, rest', rfl, strict begins' ⟨[], by simp [split]⟩ free', isLow⟩
    · obtain ⟨before', digits, partner, rfl, free', begins', isHigh⟩ := high isLow
      exact ⟨before', digits, partner, rfl, free',
        strict begins' ⟨'\\' :: 'u' :: after, by simp [split]⟩ free', isHigh⟩

/-- A logical line with a plus sign for a digit is read, and so are all lines in front of it. -/
def ReadsSign (text : List Char) : Prop :=
  ∃ before logical after, LogicalLine.ofText text = before ++ logical :: after ∧
    (∀ earlier ∈ before, earlier.WellEscaped codeUnit?) ∧ logical.WellEscaped codeUnit? ∧
    (HasSign (splitKeyValue logical.text).1 ∨ HasSign (splitKeyValue logical.text).2)

theorem LogicalLine.wellEscaped_hexUnit?_iff (logical : LogicalLine) :
    logical.WellEscaped hexUnit? ↔ logical.WellEscaped codeUnit? ∧
      ¬ (HasSign (splitKeyValue logical.text).1 ∨ HasSign (splitKeyValue logical.text).2) := by
  rw [WellEscaped, WellEscaped, Properties.wellEscaped_hexUnit?_iff,
    Properties.wellEscaped_hexUnit?_iff, not_or]
  exact and_and_and_comm

/-- A logical line comes before another one, is it, or has a greater number. -/
theorem LogicalLine.mem_ofText_cases {text : List Char} {before after : List LogicalLine}
    {logical other : LogicalLine} (lines : ofText text = before ++ logical :: after)
    (inside : other ∈ ofText text) :
    other ∈ before ∨ other = logical ∨ logical.line < other.line := by
  have order : (ofText text).Pairwise (·.line < ·.line) := pairwise_line_gather nofun
  rw [lines, List.pairwise_append, List.pairwise_cons] at order
  rw [lines, List.mem_append, List.mem_cons] at inside
  exact inside.imp_right (·.imp_right (order.2.1.1 other))

/-- Up to a line that is read despite a plus sign, the rule of four hexadecimal digits does not
say what the reader comes to. -/
theorem not_followsRule_hexUnit? {text : List Char} (h : ReadsSign text) :
    ¬ FollowsRule hexUnit? text := by
  obtain ⟨before, logical, after, lines, sound, here, sign⟩ := h
  intro follows
  have bad : ¬ logical.WellEscaped hexUnit? := by
    rw [logical.wellEscaped_hexUnit?_iff]
    exact fun strict => strict.2 sign
  cases parsed : parse text with
  | ok entries =>
    exact bad (follows.ok_iff.mp ⟨entries, parsed⟩ logical (by simp [lines]))
  | error e =>
    obtain ⟨before', strictly, after', lines', strict, -, line⟩ := (follows.error_iff e).mp parsed
    obtain ⟨before'', leniently, after'', lines'', -, unsound, line'⟩ :=
      ((followsRule_codeUnit? text).error_iff e).mp parsed
    -- The line that breaks the rule is not behind the sign, and the line that is reported is.
    have early : strictly.line ≤ logical.line := by
      rcases LogicalLine.mem_ofText_cases lines' (by simp [lines] : logical ∈ _) with
        passed | rfl | behind
      · exact absurd (strict logical passed) bad
      · exact Nat.le_refl _
      · exact Nat.le_of_lt behind
    have late : logical.line < leniently.line := by
      rcases LogicalLine.mem_ofText_cases lines (by simp [lines''] : leniently ∈ _) with
        passed | rfl | behind
      · exact absurd (sound leniently passed) unsound
      · exact absurd here unsound
      · exact behind
    have same : strictly.line = leniently.line := congrArg MalformedEscape.line (line.symm.trans line')
    omega

/-- Lines that are read are well escaped by the rule of four hexadecimal digits, unless a plus sign
is read. -/
theorem wellEscaped_of_not_readsSign {text : List Char} (h : ¬ ReadsSign text)
    {before after : List LogicalLine} (lines : LogicalLine.ofText text = before ++ after)
    (sound : ∀ logical ∈ before, logical.WellEscaped codeUnit?) :
    ∀ logical ∈ before, logical.WellEscaped hexUnit? := by
  intro logical inside
  obtain ⟨earlier, later, rfl⟩ := List.append_of_mem inside
  rw [logical.wellEscaped_hexUnit?_iff]
  refine ⟨sound logical inside, fun sign => h ?_⟩
  refine ⟨earlier, logical, later ++ after, by simp [lines], fun first among => ?_,
    sound logical inside, sign⟩
  exact sound first (by simp [among])

theorem followsRule_hexUnit? {text : List Char} (h : ¬ ReadsSign text) :
    FollowsRule hexUnit? text := by
  have lenient := followsRule_codeUnit? text
  have wider : ∀ logical : LogicalLine, logical.WellEscaped hexUnit? →
      logical.WellEscaped codeUnit? := fun logical strict =>
    (logical.wellEscaped_hexUnit?_iff.mp strict).1
  refine ⟨lenient.ok_iff.trans ⟨fun sound => ?_, fun strict logical inside => ?_⟩, fun e =>
    (lenient.error_iff e).trans ⟨?_, ?_⟩⟩
  · exact wellEscaped_of_not_readsSign h (List.append_nil _).symm sound
  · exact wider logical (strict logical inside)
  · rintro ⟨before, logical, after, lines, sound, unsound, rfl⟩
    exact ⟨before, logical, after, lines, wellEscaped_of_not_readsSign h lines sound,
      fun strict => unsound (wider logical strict), rfl⟩
  · rintro ⟨before, logical, after, lines, strict, unsound, rfl⟩
    have sound : ∀ earlier ∈ before, earlier.WellEscaped codeUnit? := fun earlier inside =>
      wider earlier (strict earlier inside)
    refine ⟨before, logical, after, lines, sound, fun here => unsound ?_, rfl⟩
    have lines' : LogicalLine.ofText text = (before ++ [logical]) ++ after := by simp [lines]
    have sound' : ∀ read ∈ before ++ [logical], read.WellEscaped codeUnit? := by
      rw [List.forall_mem_append]
      exact ⟨sound, by simpa using here⟩
    exact wellEscaped_of_not_readsSign h lines' sound' logical (by simp)

/-- A resource file is read exactly if every key and every value is well escaped, where a plus sign
may stand for the first digit of a code unit; otherwise the first logical line that is not well
escaped is reported. So the reader follows the rule of four hexadecimal digits for a text exactly if
it reads no plus sign for a digit there. -/
theorem parse_followsRule (text : List Char) :
    FollowsRule codeUnit? text ∧ (FollowsRule hexUnit? text ↔ ¬ ReadsSign text) :=
  ⟨followsRule_codeUnit? text,
    fun follows signed => not_followsRule_hexUnit? signed follows, followsRule_hexUnit?⟩

/-- A plus sign and three digits are read as a letter. -/
theorem parse_plus_041 :
    parse "a=\\u+041".toList = .ok [⟨['a'], ['A'], 1⟩] ∧
      ¬ FollowsRule hexUnit? "a=\\u+041".toList := by
  have lines : LogicalLine.ofText "a=\\u+041".toList = [⟨"a=\\u+041".toList, 1⟩] := by decide
  have split : splitKeyValue "a=\\u+041".toList = (['a'], ['\\', 'u', '+', '0', '4', '1']) := by
    decide
  have unit : codeUnit? '+' '0' '4' '1' = some 0x41 := by decide
  have read : parse "a=\\u+041".toList = .ok [⟨['a'], ['A'], 1⟩] := by
    simp only [parse, lines, List.mapM_cons, Entry.ofLine?, split]
    simp [unescape?, unit, Text.isHighSurrogate, Text.isLowSurrogate]
  refine ⟨read, fun follows => ?_⟩
  have sound := follows.ok_iff.mp ⟨_, read⟩ ⟨"a=\\u+041".toList, 1⟩
    (lines ▸ List.mem_singleton_self _)
  rw [LogicalLine.WellEscaped, split] at sound
  obtain ⟨_, _, ⟨_, _, _, _, same, digits⟩, -⟩ := sound.2.soundUnit_nil
  cases same
  cases digits

end LocaleKeys.Properties
