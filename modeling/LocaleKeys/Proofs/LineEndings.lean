import LocaleKeys.Proofs.Key
import LocaleKeys.Proofs.Text
import LocaleKeys.Properties.Entry
import LocaleKeys.Source.Position

/-!
# Line endings

`Text.withReturns` ends the lines of a text in a carriage return and a newline. The lines, words and
cursors of a text keep what a reader sees of them, so a resource file defines the same
(`Properties.parse_withReturns`), and the escaped form of a key changes as the key does.
-/

namespace LocaleKeys

namespace Text

/-- The text with a carriage return in front of each newline. -/
def withReturns (text : List Char) : List Char :=
  text.flatMap fun c => if c = '\n' then ['\r', '\n'] else [c]

@[simp]
theorem withReturns_nil : withReturns [] = [] := rfl

@[simp]
theorem withReturns_newline (text : List Char) :
    withReturns ('\n' :: text) = '\r' :: '\n' :: withReturns text := rfl

theorem withReturns_cons {c : Char} (h : c ≠ '\n') (text : List Char) :
    withReturns (c :: text) = c :: withReturns text := by
  rw [withReturns, List.flatMap_cons, if_neg h]
  rfl

theorem withReturns_append (text more : List Char) :
    withReturns (text ++ more) = withReturns text ++ withReturns more :=
  List.flatMap_append

theorem withReturns_eq_self {text : List Char} (h : '\n' ∉ text) : withReturns text = text := by
  induction text with
  | nil => rfl
  | cons c text ih =>
    rw [List.mem_cons, not_or] at h
    rw [withReturns_cons (Ne.symm h.1), ih h.2]

theorem getLast?_withReturns (text : List Char) : (withReturns text).getLast? = text.getLast? := by
  rcases List.eq_nil_or_concat text with rfl | ⟨before, c, rfl⟩
  · rfl
  · rw [List.concat_eq_append, withReturns_append]
    by_cases hc : c = '\n'
    · subst hc
      simp
    · simp [withReturns_cons hc]

/-! ## Words -/

/-- A word without line endings is found where it was. -/
theorem afterWord?_withReturns {word : List Char} (h : '\n' ∉ word ∧ '\r' ∉ word)
    (text : List Char) :
    afterWord? word (withReturns text) = (afterWord? word text).map withReturns := by
  induction word generalizing text with
  | nil => rfl
  | cons w word ih =>
    rw [List.mem_cons, List.mem_cons, not_or, not_or] at h
    obtain ⟨⟨newline, later⟩, ret, later'⟩ := h
    cases text with
    | nil => rfl
    | cons c text =>
      by_cases hc : c = '\n'
      · subst hc
        rw [withReturns_newline, afterWord?, afterWord?, if_neg (Ne.symm ret),
          if_neg (Ne.symm newline)]
        rfl
      · rw [withReturns_cons hc, afterWord?, afterWord?]
        split
        · exact ih ⟨later, later'⟩ text
        · rfl

theorem containsWord_withReturns {word : List Char} (h : '\n' ∉ word ∧ '\r' ∉ word)
    (nonempty : word ≠ []) (text : List Char) :
    containsWord word (withReturns text) = containsWord word text := by
  induction text with
  | nil => rfl
  | cons c text ih =>
    have here := congrArg Option.isSome (afterWord?_withReturns h (c :: text))
    rw [Option.isSome_map] at here
    by_cases hc : c = '\n'
    · subst hc
      obtain ⟨w, word, rfl⟩ := List.exists_cons_of_ne_nil nonempty
      have newline : w ≠ '\n' := fun same => h.1 (same ▸ List.mem_cons_self)
      rw [withReturns_newline] at here
      rw [withReturns_newline, containsWord, containsWord, containsWord, here, ih]
      simp [afterWord?, newline]
    · rw [withReturns_cons hc] at here ⊢
      rw [containsWord, containsWord, here, ih]

/-- White space is skipped with the line endings in it. -/
theorem dropWhile_isSpace_withReturns (text : List Char) :
    (withReturns text).dropWhile isSpace = withReturns (text.dropWhile isSpace) := by
  induction text with
  | nil => rfl
  | cons c text ih =>
    by_cases hc : c = '\n'
    · subst hc
      have newline : isSpace '\n' = true := by decide
      have ret : isSpace '\r' = true := by decide
      rw [withReturns_newline, List.dropWhile_cons_of_pos ret, List.dropWhile_cons_of_pos newline,
        List.dropWhile_cons_of_pos newline, ih]
    · rw [withReturns_cons hc, List.dropWhile_cons, List.dropWhile_cons]
      split
      · exact ih
      · exact (withReturns_cons hc text).symm

theorem all_isSpace_withReturns (text : List Char) :
    (withReturns text).all isSpace = text.all isSpace := by
  rw [withReturns, List.all_flatMap]
  congr 1
  funext c
  split
  · next hc =>
    subst hc
    decide
  · simp

/-! ## Lines -/

/-- The lines of a text do not depend on how they end. -/
theorem lines_withReturns {text : List Char} (h : '\r' ∉ text) :
    lines (withReturns text) = lines text := by
  by_cases newline : '\n' ∈ text
  · obtain ⟨line, rest, whole, fresh⟩ := List.eq_append_cons_of_mem newline
    have parts : '\r' ∉ line ∧ '\r' ∉ rest := by simpa [whole] using h
    have length : text.length = line.length + (rest.length + 1) := by simp [whole]
    have fresh' : '\n' ∉ line ++ ['\r'] := by simpa using fresh
    have same : dropReturn line = line := dropReturn_eq_self fun last =>
      parts.1 (List.mem_of_getLast? last)
    have dropped : dropReturn (line ++ ['\r']) = line := by simp [dropReturn]
    have ih := lines_withReturns parts.2
    rw [whole, withReturns_append, withReturns_eq_self fresh, withReturns_newline,
      lines_append_newline fresh, same, ← ih, ← List.singleton_append (x := '\r'),
      ← List.append_assoc, lines_append_newline fresh', dropped]
  · rw [withReturns_eq_self newline]
termination_by text.length

theorem firstPiece_withReturns (text : List Char) :
    firstPiece (withReturns text)
      = firstPiece text ++ if '\n' ∈ text then ['\r'] else [] := by
  induction text with
  | nil => rfl
  | cons c text ih =>
    by_cases hc : c = '\n'
    · subst hc
      rfl
    · rw [withReturns_cons hc, firstPiece, firstPiece]
      simp only [firstPiece] at ih
      simp [hc, ih, Ne.symm hc]

/-- The first line of a text does not depend on how it ends. -/
theorem firstLine_withReturns (text : List Char) :
    firstLine (withReturns text) = firstLine text := by
  rw [firstLine, firstPiece_withReturns, firstLine]
  split
  · rw [dropEndWhile, List.reverse_append, List.reverse_singleton, List.singleton_append,
      List.dropWhile_cons_of_pos (by decide), dropEndWhile]
  · rw [List.append_nil]

end Text

/-- The definitions of a resource file do not depend on how its lines end. -/
theorem Properties.parse_withReturns {text : List Char} (h : '\r' ∉ text) :
    parse (Text.withReturns text) = parse text := by
  rw [parse, parse, LogicalLine.ofText, LogicalLine.ofText, Text.lines_withReturns h]

namespace Key

/-- The key with a carriage return in front of each newline. -/
def withReturns (key : Key) : Key :=
  ⟨String.ofList (Text.withReturns key.text.toList)⟩

theorem escape_withReturns (text : List Char) :
    escape (Text.withReturns text) = Text.withReturns (escape text) := by
  induction text with
  | nil => rfl
  | cons c text ih =>
    by_cases hc : c = '\n'
    · subst hc
      have newline : escapeChar '\n' = ['\n'] := by decide
      have ret : escapeChar '\r' = ['\r'] := by decide
      rw [Text.withReturns_newline, escape_cons, escape_cons, escape_cons, ih, ret, newline]
      rfl
    · have other : '\n' ∉ escapeChar c := by
        rw [escapeChar]
        split
        · decide
        · split <;> simp [Ne.symm hc]
      rw [Text.withReturns_cons hc, escape_cons, escape_cons, ih, Text.withReturns_append,
        Text.withReturns_eq_self other]

theorem toList_propertiesKey_withReturns (key : Key) :
    key.withReturns.propertiesKey.toList = Text.withReturns key.propertiesKey.toList := by
  rw [toList_propertiesKey, toList_propertiesKey, withReturns, String.toList_ofList,
    escape_withReturns]

/-- Line endings inside of a key make no difference to whether it can be stored. -/
theorem defect?_withReturns (key : Key) : key.withReturns.defect? = key.defect? := by
  have word : '\n' ∉ ['\\', 'n'] ∧ '\r' ∉ ['\\', 'n'] := by decide
  unfold defect?
  rw [toList_propertiesKey_withReturns]
  simp only [Text.getLast?_withReturns, Text.containsWord_withReturns word (List.cons_ne_nil _ _)]

theorem isBlank_withReturns (key : Key) : key.withReturns.isBlank = key.isBlank := by
  rw [isBlank, isBlank, toList_propertiesKey_withReturns, Text.all_isSpace_withReturns]

end Key

namespace Cursor

/-- The cursor at the same place of the text with carriage returns. -/
def withReturns (cursor : Cursor) : Cursor :=
  { cursor with fromLineStart := Text.withReturns cursor.fromLineStart }

theorem line_withReturns (cursor : Cursor) : cursor.withReturns.line = cursor.line :=
  Text.firstLine_withReturns cursor.fromLineStart

/-- A carriage return does not move a cursor that goes on over its newline. -/
theorem advance_newline_withReturns (cursor : Cursor) (rest : List Char) :
    (cursor.withReturns.advance '\r' ('\n' :: Text.withReturns rest)).advance '\n'
        (Text.withReturns rest)
      = (cursor.advance '\n' rest).withReturns := rfl

theorem advance_withReturns (cursor : Cursor) {c : Char} (h : c ≠ '\n') (rest : List Char) :
    cursor.withReturns.advance c (Text.withReturns rest)
      = (cursor.advance c rest).withReturns := by
  unfold advance withReturns
  rw [if_neg h, if_neg h]

end Cursor

end LocaleKeys
