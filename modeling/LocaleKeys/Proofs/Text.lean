import LocaleKeys.Text.Lines
import LocaleKeys.Text.Word

/-!
# Trimming, words and lines

What `trim` takes away is white space at both ends (`exists_append_trim`), so it leaves a text alone
exactly if there is none (`trim_eq_self_iff`), and a text that goes on keeps its front
(`trim_prefix`). A text contains a word that is an infix of it (`containsWord_iff_infix`). The lines
of a text are its first line and the lines of what follows the first newline
(`lines_append_newline`).
-/

namespace LocaleKeys.Text

theorem dropWhile_eq_self {p : Char → Bool} {text : List Char}
    (h : ∀ c ∈ text.head?, p c = false) : text.dropWhile p = text := by
  cases text with
  | nil => rfl
  | cons c text => simp [h c rfl]

theorem length_dropEndWhile_le (p : Char → Bool) (text : List Char) :
    (dropEndWhile p text).length ≤ text.length := by
  have kept := (List.dropWhile_suffix (l := text.reverse) p).length_le
  simpa [dropEndWhile] using kept

/-- The characters that are dropped belong to the class, and the one before them does not. -/
theorem exists_append_dropEndWhile (p : Char → Bool) (text : List Char) :
    ∃ ends, text = dropEndWhile p text ++ ends ∧ (∀ c ∈ ends, p c = true) ∧
      ∀ c ∈ (dropEndWhile p text).getLast?, p c = false := by
  refine ⟨(text.reverse.takeWhile p).reverse, ?_, fun c inside => ?_, fun c last => ?_⟩
  · rw [dropEndWhile, ← List.reverse_append, List.takeWhile_append_dropWhile, List.reverse_reverse]
  · exact List.all_eq_true.mp List.all_takeWhile c (List.mem_reverse.mp inside)
  · have kept := List.head?_dropWhile_not p text.reverse
    rw [dropEndWhile, List.getLast?_reverse] at last
    rw [last] at kept
    exact kept

/-- Trimming takes white space off both ends and nothing else. -/
theorem exists_append_trim (text : List Char) :
    ∃ before after, text = before ++ trim text ++ after ∧
      (∀ c ∈ before, isSpace c = true) ∧ ∀ c ∈ after, isSpace c = true := by
  obtain ⟨ends, split, spaces, -⟩ := exists_append_dropEndWhile isSpace (text.dropWhile isSpace)
  refine ⟨text.takeWhile isSpace, ends, ?_, fun c inside => ?_, spaces⟩
  · rw [List.append_assoc, trim, ← split, List.takeWhile_append_dropWhile]
  · exact List.all_eq_true.mp List.all_takeWhile c inside

theorem isSpace_of_getLast?_trim {text : List Char} {c : Char}
    (last : (trim text).getLast? = some c) : isSpace c = false := by
  obtain ⟨-, -, -, ends⟩ := exists_append_dropEndWhile isSpace (text.dropWhile isSpace)
  exact ends c last

/-- A text is left alone if it has no white space at its ends. -/
theorem trim_eq_self_iff {text : List Char} :
    trim text = text ↔
      (∀ c ∈ text.head?, isSpace c = false) ∧ ∀ c ∈ text.getLast?, isSpace c = false := by
  constructor
  · intro h
    constructor
    · intro c head
      obtain ⟨rest, rfl⟩ := List.head?_eq_some_iff.mp head
      apply Bool.eq_false_iff.mpr
      intro space
      have shorter := length_dropEndWhile_le isSpace ((c :: rest).dropWhile isSpace)
      have suffix := (List.dropWhile_suffix (l := rest) isSpace).length_le
      rw [← trim, h, List.dropWhile_cons_of_pos space, List.length_cons] at shorter
      omega
    · intro c last
      rw [← h] at last
      exact isSpace_of_getLast?_trim last
  · rintro ⟨head, last⟩
    rw [trim, dropWhile_eq_self head, dropEndWhile, dropWhile_eq_self, List.reverse_reverse]
    simpa using last

/-- The last character stays if it is no white space. -/
theorem getLast?_trim {text : List Char} {c : Char} (last : text.getLast? = some c)
    (h : isSpace c = false) : (trim text).getLast? = some c := by
  obtain ⟨before, after, split, spaces, spaces'⟩ := exists_append_trim text
  rw [split, List.getLast?_append, List.getLast?_append, Option.or_eq_some_iff,
    Option.or_eq_some_iff] at last
  rcases last with last | ⟨-, kept | ⟨-, last⟩⟩
  · rw [spaces' c (List.mem_of_getLast? last)] at h
    cases h
  · exact kept
  · rw [spaces c (List.mem_of_getLast? last)] at h
    cases h

theorem dropEndWhile_append (p : Char → Bool) (text more : List Char) :
    dropEndWhile p (text ++ more) =
      if (dropEndWhile p more).isEmpty then dropEndWhile p text
      else text ++ dropEndWhile p more := by
  rw [dropEndWhile, List.reverse_append, List.dropWhile_append]
  simp only [dropEndWhile, List.isEmpty_reverse]
  split
  · rfl
  · rw [List.reverse_append, List.reverse_reverse]

theorem dropEndWhile_eq_nil {p : Char → Bool} {text : List Char} (h : ∀ c ∈ text, p c = true) :
    dropEndWhile p text = [] := by
  have none : (text.reverse ++ []).dropWhile p = [] :=
    List.dropWhile_append_of_pos fun c hc => h c (List.mem_reverse.mp hc)
  rw [List.append_nil] at none
  rw [dropEndWhile, none, List.reverse_nil]

theorem dropEndWhile_isPrefix (p : Char → Bool) (text : List Char) :
    dropEndWhile p text <+: text := by
  have kept := List.dropWhile_suffix (l := text.reverse) p
  rwa [← List.reverse_prefix, List.reverse_reverse] at kept

/-- There is nothing left to trim of a trimmed text. -/
theorem trim_trim (text : List Char) : trim (trim text) = trim text := by
  rw [trim_eq_self_iff]
  refine ⟨fun c head => ?_, fun c last => isSpace_of_getLast?_trim last⟩
  obtain ⟨rest, front⟩ := List.head?_eq_some_iff.mp head
  obtain ⟨after, whole⟩ := dropEndWhile_isPrefix isSpace (text.dropWhile isSpace)
  have kept := List.head?_dropWhile_not isSpace text
  rw [← trim, front] at whole
  rw [← whole] at kept
  exact kept

/-- A text without the white space behind it is a front of what follows it with any text. -/
theorem trim_prefix {ends : List Char} (h : ∀ c ∈ ends, isSpace c = true) (kept rest : List Char) :
    trim (kept ++ ends) <+: trim (kept ++ rest) := by
  rw [trim, trim, List.dropWhile_append, List.dropWhile_append]
  split
  · rw [dropEndWhile_eq_nil fun c hc => h c ((List.dropWhile_suffix _).subset hc)]
    exact List.nil_prefix
  · rw [dropEndWhile_append, dropEndWhile_eq_nil h, List.isEmpty_nil, if_pos rfl,
      dropEndWhile_append]
    split
    · exact List.prefix_rfl
    · exact (dropEndWhile_isPrefix _ _).trans (List.prefix_append _ _)

theorem trim_prefix_append (text rest : List Char) : trim text <+: trim (text ++ rest) := by
  have kept : trim (text ++ []) <+: trim (text ++ rest) := trim_prefix (by simp) text rest
  rwa [List.append_nil] at kept

/-! ## Words -/

theorem containsWord_iff_infix {word text : List Char} :
    containsWord word text = true ↔ word <:+: text := by
  induction text with
  | nil => simp [containsWord]
  | cons c rest ih =>
    rw [containsWord, Bool.or_eq_true, ih, List.infix_cons_iff, Option.isSome_iff_exists]
    exact or_congr_left (exists_congr fun _ => afterWord?_eq_some_iff.trans eq_comm)

/-- A pair stands at the front of a list or behind its first item. -/
theorem pair_infix_cons_iff {α : Type} {a b c : α} {list : List α} :
    [a, b] <:+: c :: list ↔ (c = a ∧ list.head? = some b) ∨ [a, b] <:+: list := by
  rw [List.infix_cons_iff, List.cons_prefix_cons, eq_comm (a := a)]
  apply or_congr_left
  apply and_congr_right'
  cases list with
  | nil => simp
  | cons d list => simp [List.cons_prefix_cons, eq_comm]

/-! ## Lines -/

/-- The lines of a text that has a newline. -/
theorem lines_append_newline {line : List Char} (h : '\n' ∉ line) (text : List Char) :
    lines (line ++ '\n' :: text) = dropReturn line :: lines text := by
  rw [lines, lines, List.splitOn_append_cons_self_of_not_mem h]
  cases pieces : text.splitOn '\n' with
  | nil => exact absurd pieces (List.splitOn_ne_nil _ _)
  | cons piece pieces => rfl

theorem dropReturn_eq_self {line : List Char} (h : line.getLast? ≠ some '\r') :
    dropReturn line = line :=
  if_neg h

/-- The only line of a text without a newline. -/
theorem lines_singleton {line : List Char} (h : '\n' ∉ line) (nonempty : line ≠ []) :
    lines line = [line] := by
  rw [lines, List.splitOn_eq_singleton h, linesOfPieces, if_neg (by simpa using nonempty)]

theorem dropReturn_of_unbroken {line : List Char} (h : ∀ c ∈ line, c ≠ '\n' ∧ c ≠ '\r') :
    dropReturn line = line :=
  dropReturn_eq_self fun last => (h _ (List.mem_of_getLast? last)).2 rfl

theorem not_mem_of_unbroken {line : List Char} (h : ∀ c ∈ line, c ≠ '\n' ∧ c ≠ '\r') :
    '\n' ∉ line :=
  fun inside => (h _ inside).1 rfl

/-- Unbroken texts that each end with a newline are the lines of the whole. -/
theorem lines_flatMap_newline {texts : List (List Char)}
    (h : ∀ line ∈ texts, ∀ c ∈ line, c ≠ '\n' ∧ c ≠ '\r') :
    lines (texts.flatMap (· ++ ['\n'])) = texts := by
  induction texts with
  | nil => rfl
  | cons line texts ih =>
    rw [List.forall_mem_cons] at h
    rw [List.flatMap_cons, List.append_assoc, List.singleton_append,
      lines_append_newline (not_mem_of_unbroken h.1), dropReturn_of_unbroken h.1, ih h.2]

/-- Unbroken texts with newlines between them are the lines of the whole. -/
theorem lines_intercalate_newline {texts : List (List Char)}
    (h : ∀ line ∈ texts, ∀ c ∈ line, c ≠ '\n' ∧ c ≠ '\r') (nonempty : ∀ line ∈ texts, line ≠ []) :
    lines (['\n'].intercalate texts) = texts := by
  induction texts with
  | nil => rfl
  | cons line texts ih =>
    rw [List.forall_mem_cons] at h nonempty
    cases texts with
    | nil =>
      rw [List.intercalate_singleton, lines_singleton (not_mem_of_unbroken h.1) nonempty.1]
    | cons next texts =>
      rw [List.intercalate_cons_cons, List.append_assoc, List.singleton_append,
        lines_append_newline (not_mem_of_unbroken h.1), dropReturn_of_unbroken h.1,
        ih h.2 nonempty.2]

theorem length_dropReturn_le (line : List Char) : (dropReturn line).length ≤ line.length := by
  rw [dropReturn]
  split
  · rw [List.length_dropLast]
    omega
  · exact Nat.le_refl _

end LocaleKeys.Text
