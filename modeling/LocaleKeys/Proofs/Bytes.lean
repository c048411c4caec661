import Mathlib.Data.List.Basic

/-!
# The order of texts is the order of their bytes

The bytes of a character grow with it, and none of two different characters begins with the bytes of
the other (`Utf8.append_lt`). So texts are in the same order whether they are compared by their
characters or by their bytes (`bytes_lt_of_compare`).
-/

namespace LocaleKeys.Text

/-- The bytes of a text. -/
def bytes (text : String) : List UInt8 :=
  text.toList.flatMap String.utf8EncodeChar

/-- A scalar value is written in one to four bytes, six bits of it in every byte but the first. -/
inductive Utf8 (value : Nat) : List UInt8 → Prop where
  | one (small : value < 0x80) : Utf8 value [.ofNat value]
  | two {a b : Nat} (same : value = a * 64 + b) (large : 0x80 ≤ value) (first : a < 32)
      (second : b < 64) : Utf8 value [.ofNat (a + 0xC0), .ofNat (b + 0x80)]
  | three {a b c : Nat} (same : value = (a * 64 + b) * 64 + c) (large : 0x800 ≤ value)
      (first : a < 16) (second : b < 64) (third : c < 64) :
      Utf8 value [.ofNat (a + 0xE0), .ofNat (b + 0x80), .ofNat (c + 0x80)]
  | four {a b c d : Nat} (same : value = ((a * 64 + b) * 64 + c) * 64 + d)
      (large : 0x10000 ≤ value) (first : a < 8) (second : b < 64) (third : c < 64)
      (fourth : d < 64) :
      Utf8 value [.ofNat (a + 0xF0), .ofNat (b + 0x80), .ofNat (c + 0x80), .ofNat (d + 0x80)]

theorem utf8_utf8EncodeChar (c : Char) : Utf8 c.val.toNat (String.utf8EncodeChar c) := by
  have bound : c.val.toNat < 0x110000 := by
    have valid := c.valid
    simp only [UInt32.isValidChar, Nat.isValidChar] at valid
    omega
  rw [String.utf8EncodeChar]
  split
  · exact .one (by omega)
  · split
    · exact .two (by omega) (by omega) (by omega) (by omega)
    · split
      · exact .three (by omega) (by omega) (by omega) (by omega) (by omega)
      · exact .four (by omega) (by omega) (by omega) (by omega) (by omega) (by omega)

/-- The smaller of two scalar values has the smaller bytes, whatever follows them. -/
theorem Utf8.append_lt {v w : Nat} {written written' : List UInt8} (h : Utf8 v written)
    (h' : Utf8 w written') (order : v < w) (more more' : List UInt8) :
    written ++ more < written' ++ more' := by
  cases h <;> cases h'
  all_goals
    simp only [List.cons_append, List.nil_append, List.cons_lt_cons_iff, UInt8.lt_iff_toNat_lt,
      UInt8.toNat_ofNat', ← UInt8.toNat_inj]
    omega

theorem Utf8.exists_cons {value : Nat} {written : List UInt8} (h : Utf8 value written) :
    ∃ byte rest, written = byte :: rest := by
  cases h <;> exact ⟨_, _, rfl⟩

theorem flatMap_utf8EncodeChar_lt {text text' : List Char} (h : text < text') :
    text.flatMap String.utf8EncodeChar < text'.flatMap String.utf8EncodeChar := by
  induction text generalizing text' with
  | nil =>
    cases text' with
    | nil => exact absurd h (List.lt_irrefl _)
    | cons c text' =>
      obtain ⟨byte, rest, written⟩ := (utf8_utf8EncodeChar c).exists_cons
      rw [List.flatMap_cons, written]
      exact List.nil_lt_cons _ _
  | cons c text ih =>
    cases text' with
    | nil => exact absurd h (List.not_lt_nil _)
    | cons d text' =>
      rw [List.flatMap_cons, List.flatMap_cons]
      rcases List.cons_lt_cons_iff.mp h with order | ⟨rfl, order⟩
      · exact (utf8_utf8EncodeChar c).append_lt (utf8_utf8EncodeChar d) order _ _
      · exact List.append_left_lt (ih order)

/-- The text that comes first has the smaller bytes. -/
theorem bytes_lt_of_compare {a b : String} (h : compare a b = .lt) : bytes a < bytes b := by
  have order : a < b := compareOfLessAndEq_eq_lt.mp h
  exact flatMap_utf8EncodeChar_lt (String.lt_iff.mp order)

end LocaleKeys.Text
