import LocaleKeys.Proofs.Attempts
import LocaleKeys.Proofs.Properties.LineNumbers
import LocaleKeys.Proofs.Properties.RawKey

/-!
# A line for a key in front of a resource file

The line is the stored form of the key and an equals sign. What follows it is read as it is read
alone, one line further down (`gather_succ`). If the key is `Storable`, the file with the line
defines it on line 1 and is otherwise the same (`parse_withKeyLine`); if the file with the line
defines the key on line 1, the key is `Storable` (`storable_of_parse_withKeyLine`), because no other
raw key is long enough to stand for it.
-/

namespace LocaleKeys.Properties

/-- The logical line when one line is put in front of the text. -/
def LogicalLine.down (logical : LogicalLine) : LogicalLine :=
  { logical with line := logical.line + 1 }

/-- The definition when one line is put in front of the text. -/
def Entry.down (entry : Entry) : Entry :=
  { entry with line := entry.line + 1 }

/-- A text with a line for a key in front. -/
def withKeyLine (key : Key) (text : List Char) : List Char :=
  key.propertiesKey.toList ++ '=' :: '\n' :: text

namespace LogicalLine

theorem gather_succ (line : Nat) (opened : Option LogicalLine) (naturals : List (List Char)) :
    gather (line + 1) (opened.map down) naturals = (gather line opened naturals).map down :=
  gather_relined (fun _ _ => rfl) opened naturals

/-- No logical line begins further up than the first natural line and the line that is open. -/
theorem le_line_of_mem_gather {bound line : Nat} {opened : Option LogicalLine}
    {naturals : List (List Char)} {logical : LogicalLine}
    (h : logical ∈ gather line opened naturals) (below : bound ≤ line)
    (below' : ∀ first ∈ opened, bound ≤ first.line) : bound ≤ logical.line := by
  induction naturals generalizing line opened with
  | nil =>
    rw [gather, Option.mem_toList] at h
    exact below' logical h
  | cons natural naturals ih =>
    have next : bound ≤ line + 1 := Nat.le_succ_of_le below
    cases opened with
    | none =>
      simp only [gather] at h
      split at h
      · exact ih h next (by simp)
      · split at h
        · exact ih h next (by simpa using below)
        · rcases List.mem_cons.mp h with rfl | h
          · exact below
          · exact ih h next (by simp)
    | some opened =>
      have first : bound ≤ opened.line := below' opened rfl
      simp only [gather] at h
      split at h
      · exact ih h next (by simpa using first)
      · rcases List.mem_cons.mp h with rfl | h
        · exact first
        · exact ih h next (by simp)

/-- Logical lines begin one behind the other. -/
theorem pairwise_line_gather {line : Nat} {opened : Option LogicalLine}
    {naturals : List (List Char)} (h : ∀ first ∈ opened, first.line < line) :
    (gather line opened naturals).Pairwise (·.line < ·.line) := by
  induction naturals generalizing line opened with
  | nil =>
    cases opened with
    | none => exact .nil
    | some opened => exact List.pairwise_singleton _ _
  | cons natural naturals ih =>
    have behind : ∀ logical ∈ gather (line + 1) none naturals, line + 1 ≤ logical.line :=
      fun logical inside => le_line_of_mem_gather inside (Nat.le_refl _) (by simp)
    cases opened with
    | none =>
      simp only [gather]
      split
      · exact ih (by simp)
      · split
        · exact ih (by simp)
        · exact .cons behind (ih (by simp))
    | some opened =>
      have first : opened.line < line := h opened rfl
      simp only [gather]
      split
      · exact ih (by simpa using Nat.lt_succ_of_lt first)
      · refine .cons (fun logical inside => ?_) (ih (by simp))
        exact Nat.lt_of_lt_of_le (Nat.lt_succ_of_lt first) (behind logical inside)

theorem continues_concat {c : Char} (h : c ≠ '\\') (text : List Char) :
    continues (text ++ [c]) = false := by
  simp [continues, h]

theorem dropWhile_isBlank_concat (text : List Char) :
    (text ++ ['=']).dropWhile isBlank = text.dropWhile isBlank ++ ['='] := by
  induction text with
  | nil => rfl
  | cons c text ih =>
    rw [List.cons_append, List.dropWhile_cons, List.dropWhile_cons, ih]
    split <;> rfl

/-- The lines of a text whose first line ends with an equals sign. -/
theorem lines_of_equals {key : List Char} (h : '\n' ∉ key) (text : List Char) :
    Text.lines (key ++ '=' :: '\n' :: text) = (key ++ ['=']) :: Text.lines text := by
  have line : '\n' ∉ key ++ ['='] := by simpa using h
  rw [← List.singleton_append (x := '='), ← List.append_assoc, Text.lines_append_newline line,
    Text.dropReturn_eq_self (by simp)]

/-- A line that is open goes on at most up to an equals sign at the end of a natural line. -/
theorem length_text_le {opened logical : LogicalLine} {line : Nat} {key text : List Char}
    (h : logical ∈ gather line (some opened) (Text.lines (key ++ '=' :: '\n' :: text)))
    (first : logical.line < line) :
    logical.text.length ≤ opened.text.length + key.length + 1 := by
  by_cases newline : '\n' ∈ key
  · obtain ⟨natural, rest, whole, fresh⟩ := List.eq_append_cons_of_mem newline
    have length : key.length = natural.length + (rest.length + 1) := by simp [whole]
    have natural_le := Text.length_dropReturn_le natural
    have blanks_le := (List.dropWhile_suffix (l := Text.dropReturn natural) isBlank).length_le
    rw [whole, List.append_assoc, List.cons_append, Text.lines_append_newline fresh] at h
    simp only [gather] at h
    split at h
    -- The line goes on into the rest of the key, with its backslash off.
    · have rest_le := length_text_le h (Nat.lt_succ_of_lt first)
      simp only [List.length_dropLast, List.length_append] at rest_le
      omega
    · rcases List.mem_cons.mp h with rfl | h
      · rw [List.length_append]
        omega
      · have behind := le_line_of_mem_gather h (Nat.le_refl _) (by simp)
        omega
  · have blanks_le := (List.dropWhile_suffix (l := key) isBlank).length_le
    rw [lines_of_equals newline] at h
    simp only [gather, dropWhile_isBlank_concat, ← List.append_assoc] at h
    rw [continues_concat (by decide)] at h
    rcases List.mem_cons.mp h with rfl | h
    · simp only [List.length_append, List.length_singleton]
      omega
    · have behind := le_line_of_mem_gather h (Nat.le_refl _) (by simp)
      omega
termination_by key.length

/-- The logical line that begins on the line for a key. -/
theorem eq_of_line_eq_one {key text : List Char} {logical : LogicalLine}
    (h : logical ∈ ofText (key ++ '=' :: '\n' :: text)) (first : logical.line = 1)
    (newline : '\n' ∉ key) :
    logical.text = key.dropWhile isBlank ++ ['='] ∧
      isIgnored (key.dropWhile isBlank ++ ['=']) = false := by
  rw [ofText, lines_of_equals newline] at h
  simp only [gather, dropWhile_isBlank_concat] at h
  rw [continues_concat (by decide)] at h
  cases ignored : isIgnored (key.dropWhile isBlank ++ ['=']) with
  | true =>
    rw [ignored, if_pos rfl] at h
    have behind := le_line_of_mem_gather h (Nat.le_refl _) (by simp)
    omega
  | false =>
    rw [ignored] at h
    rcases List.mem_cons.mp h with rfl | h
    · exact ⟨rfl, rfl⟩
    · have behind := le_line_of_mem_gather h (Nat.le_refl _) (by simp)
      omega

/-- A logical line that begins on the line for a key is too short for the key if that has a
newline. -/
theorem length_lt_of_line_eq_one {key text : List Char} {logical : LogicalLine}
    (h : logical ∈ ofText (key ++ '=' :: '\n' :: text)) (first : logical.line = 1)
    (newline : '\n' ∈ key) : logical.text.length < key.length := by
  obtain ⟨natural, rest, whole, fresh⟩ := List.eq_append_cons_of_mem newline
  have length : key.length = natural.length + (rest.length + 1) := by simp [whole]
  have natural_le := Text.length_dropReturn_le natural
  have blanks_le := (List.dropWhile_suffix (l := Text.dropReturn natural) isBlank).length_le
  rw [ofText, whole, List.append_assoc, List.cons_append, Text.lines_append_newline fresh] at h
  simp only [gather] at h
  split at h
  · have behind := le_line_of_mem_gather h (Nat.le_refl _) (by simp)
    omega
  · next some =>
    split at h
    · have nonempty : 0 < ((Text.dropReturn natural).dropWhile isBlank).length := by
        refine List.length_pos_of_ne_nil fun none => some ?_
        rw [none]
        rfl
      have rest_le := length_text_le h (by omega)
      simp only [List.length_dropLast] at rest_le
      omega
    · rcases List.mem_cons.mp h with rfl | h
      · change ((Text.dropReturn natural).dropWhile isBlank).length < key.length
        omega
      · have behind := le_line_of_mem_gather h (Nat.le_refl _) (by simp)
        omega

end LogicalLine

/-! ## Definitions -/

theorem Entry.ofLine?_eq_ok {logical : LogicalLine} {entry : Entry}
    (h : Entry.ofLine? logical = .ok entry) :
    unescape? (spanKey logical.text).1 = some entry.key ∧ entry.line = logical.line := by
  simp only [Entry.ofLine?, splitKeyValue] at h
  split at h
  · next key _ read _ =>
    cases h
    exact ⟨read, rfl⟩
  · cases h

/-- Definitions stand one behind the other. -/
theorem pairwise_line_of_parse {text : List Char} {entries : List Entry}
    (h : parse text = .ok entries) : entries.Pairwise (·.line < ·.line) := by
  have lines : List.Forall₂ (· = ·) ((LogicalLine.ofText text).map (·.line))
      (entries.map (·.line)) := by
    rw [List.forall₂_map_left_iff, List.forall₂_map_right_iff]
    exact (mapM_eq_ok_iff.mp h).imp fun _ _ read => (Entry.ofLine?_eq_ok read).2.symm
  rw [List.forall₂_eq_eq_eq] at lines
  rw [← List.pairwise_map, ← lines, List.pairwise_map]
  exact LogicalLine.pairwise_line_gather nofun

theorem Entry.ofLine?_down {logical : LogicalLine} {entry : Entry}
    (h : Entry.ofLine? logical = .ok entry) : Entry.ofLine? logical.down = .ok entry.down := by
  simp only [Entry.ofLine?, LogicalLine.down] at h ⊢
  split at h
  · next read read' =>
    cases h
    simp [down]
  · cases h

theorem isBlank_eq_true_iff {c : Char} : isBlank c = true ↔ c = ' ' ∨ c = '\t' ∨ c = '\x0c' := by
  simp [isBlank, or_assoc]

theorem LogicalLine.isIgnored_concat (text : List Char) :
    isIgnored (text ++ ['=']) = false ↔ ∀ c ∈ ['#', '!'], text.head? ≠ some c := by
  cases text with
  | nil => simp [isIgnored]
  | cons c text => simp [isIgnored]

/-- No blanks come off the start of a stored form that has none. -/
theorem dropWhile_isBlank_escape {text : List Char}
    (h : ∀ c ∈ ['\n', '\t', '\x0c'], c ∉ Key.escape text) :
    (Key.escape text).dropWhile isBlank = Key.escape text := by
  refine Text.dropWhile_eq_self fun c head => Bool.eq_false_iff.mpr fun blank => ?_
  have inside := List.mem_of_mem_head? head
  rcases isBlank_eq_true_iff.mp blank with rfl | rfl | rfl
  · exact Key.space_not_mem_escape _ inside
  · exact h _ (by simp) inside
  · exact h _ (by simp) inside

/-- The line for a storable key is a logical line. -/
theorem ofText_withKeyLine {key : Key} (h : key.Storable) (text : List Char) :
    LogicalLine.ofText (withKeyLine key text) =
      ⟨Key.escape key.text.toList ++ ['='], 1⟩ :: (LogicalLine.ofText text).map .down := by
  have fresh : ∀ c ∈ ['\n', '\t', '\x0c'], c ∉ Key.escape key.text.toList := by
    intro c hc
    rw [Key.break_mem_escape_iff hc]
    exact h.unbroken c hc
  have visible : LogicalLine.isIgnored (Key.escape key.text.toList ++ ['=']) = false := by
    rw [LogicalLine.isIgnored_concat]
    intro c hc
    rw [Ne, Key.head?_escape_eq_mark_iff hc]
    exact h.noComment c hc
  rw [LogicalLine.ofText, withKeyLine, key.toList_propertiesKey,
    LogicalLine.lines_of_equals (fresh _ (by simp))]
  simp only [LogicalLine.gather, LogicalLine.dropWhile_isBlank_concat,
    dropWhile_isBlank_escape fresh, visible]
  rw [LogicalLine.continues_concat (by decide)]
  exact congrArg (List.cons _) (LogicalLine.gather_succ 1 none _)

/-- A file with a line for a storable key defines the key on that line and otherwise the same. -/
theorem parse_withKeyLine {key : Key} (h : key.Storable) {text : List Char} {entries : List Entry}
    (parsed : parse text = .ok entries) :
    parse (withKeyLine key text) =
      .ok (⟨Key.underscored key.text.toList, [], 1⟩ :: entries.map Entry.down) := by
  have read : Entry.ofLine? ⟨Key.escape key.text.toList ++ ['='], 1⟩ =
      .ok ⟨Key.underscored key.text.toList, [], 1⟩ := by
    simp only [Entry.ofLine?, splitKeyValue, unescape?_escape h.plain,
      spanKey_escape h.plain (h.unbroken _ (by simp)) (h.unbroken _ (by simp))]
    rfl
  rw [parse, mapM_eq_ok_iff] at parsed ⊢
  rw [ofText_withKeyLine h, List.forall₂_cons]
  refine ⟨read, ?_⟩
  rw [List.forall₂_map_left_iff, List.forall₂_map_right_iff]
  exact parsed.imp fun _ _ => Entry.ofLine?_down

/-- A trimmed key is stored in at most as many characters as a raw key for it has. -/
theorem StandsFor.length_escape_trim_le {raw key : List Char} (h : StandsFor raw key) :
    (Key.escape (Text.trim key)).length ≤ (Key.escape key).length ∧
      (Key.escape key).length ≤ raw.length := by
  constructor
  · obtain ⟨before, after, split, -, -⟩ := Text.exists_append_trim key
    have whole := congrArg (List.length ∘ Key.escape) split
    simp only [Function.comp_apply, Key.escape_append, List.length_append] at whole
    omega
  · rcases h.length_lt_or_eq with shorter | ⟨same, -⟩
    · exact Nat.le_of_lt shorter
    · exact Nat.le_of_eq (congrArg _ same)

/-- The equals sign at the end of a line is not part of the raw key, if that stands for the key that
the line is for. -/
theorem after_ne_nil {stored raw key after : List Char} (raw_key : IsRawKey raw)
    (stands : StandsFor raw key) (split : raw ++ after = stored.dropWhile isBlank ++ ['='])
    (same : Key.escape (Text.trim key) = stored) : after ≠ [] := by
  rintro rfl
  rw [List.append_nil] at split
  subst split
  have backslash : stored.getLast? = some '\\' := by
    obtain ⟨blanks, whole⟩ := List.dropWhile_suffix (l := stored) isBlank
    rw [← whole, List.getLast?_append, raw_key.getLast?_of_concat]
    rfl
  have last : key.getLast? = some '=' := stands.getLast?_eq List.getLast?_concat
  have equals : stored.getLast? = some '=' := by
    rw [← same, Key.getLast?_escape, Key.underscored, List.getLast?_map,
      Text.getLast?_trim last rfl]
    rfl
  rw [backslash] at equals
  cases equals

/-- A raw key on the line for a key that stands for that key is the stored form of the key. -/
theorem stored_of_raw {stored raw key after : List Char} (raw_key : IsRawKey raw)
    (stands : StandsFor raw key) (split : raw ++ after = stored.dropWhile isBlank ++ ['='])
    (same : Key.escape (Text.trim key) = stored) :
    Text.trim key = key ∧ ∀ c ∈ key, c ≠ '\\' ∧ isBlank c = false := by
  have behind := List.length_pos_of_ne_nil (after_ne_nil raw_key stands split same)
  have whole := congrArg List.length split
  have blanks_le := (List.dropWhile_suffix (l := stored) isBlank).length_le
  have stored_le := stands.length_escape_trim_le
  rw [List.length_append, List.length_append, List.length_singleton] at whole
  rw [same] at stored_le
  rcases stands.length_lt_or_eq with shorter | ⟨-, clear⟩
  · omega
  · refine ⟨?_, clear⟩
    obtain ⟨before, after', parts, -, -⟩ := Text.exists_append_trim key
    have lengths := congrArg (List.length ∘ Key.escape) parts
    have before_le := Key.length_le_length_escape before
    have after_le := Key.length_le_length_escape after'
    simp only [Function.comp_apply, Key.escape_append, List.length_append, same] at lengths
    have nothing : before = [] ∧ after' = [] := by
      constructor <;> exact List.eq_nil_of_length_eq_zero (by omega)
    rw [nothing.1, nothing.2, List.nil_append, List.append_nil] at parts
    exact parts.symm

/-- A key that a line for it defines can be held by a resource file. -/
theorem storable_of_parse_withKeyLine {key : Key} {text : List Char} {entries : List Entry}
    (parsed : parse (withKeyLine key text) = .ok entries) {entry : Entry} (found : entry ∈ entries)
    (first : entry.line = 1)
    (same : (Key.ofResource entry.key).propertiesKey = key.propertiesKey) : key.Storable := by
  obtain ⟨logical, inside, read⟩ := exists_of_mem_results parsed found
  obtain ⟨read, line⟩ := Entry.ofLine?_eq_ok read
  have stored : Key.escape (Text.trim entry.key) = Key.escape key.text.toList := by
    have lists := congrArg String.toList same
    rwa [Key.toList_propertiesKey, Key.toList_propertiesKey, Key.ofResource, String.toList_ofList]
      at lists
  rw [line] at first
  rw [withKeyLine, Key.toList_propertiesKey] at inside
  have split := spanKey_append logical.text
  have raw_key := isRawKey_spanKey logical.text
  have stands := raw_key.standsFor read
  have newline : '\n' ∉ Key.escape key.text.toList := by
    intro newline
    have short := LogicalLine.length_lt_of_line_eq_one inside first newline
    have whole := congrArg List.length split
    have stored_le := stands.length_escape_trim_le
    -- A raw key in so short a line stands for no key with so long a stored form.
    rw [stored] at stored_le
    rw [List.length_append] at whole
    omega
  obtain ⟨text_eq, visible⟩ := LogicalLine.eq_of_line_eq_one inside first newline
  rw [text_eq] at split raw_key stands
  obtain ⟨trimmed, clear⟩ := stored_of_raw raw_key stands split stored
  rw [trimmed] at stored
  have fresh : ∀ c ∈ ['\n', '\t', '\x0c'], c ∉ Key.escape key.text.toList := by
    intro c hc inside
    rw [← stored, Key.break_mem_escape_iff hc] at inside
    have visible := (clear c inside).2
    simp only [List.mem_cons, List.not_mem_nil, or_false] at hc
    rcases hc with rfl | rfl | rfl
    · rw [← Key.break_mem_escape_iff (by simp), stored] at inside
      exact newline inside
    · cases visible
    · cases visible
  rw [dropWhile_isBlank_escape fresh, LogicalLine.isIgnored_concat] at visible
  refine ⟨?_, ?_, ?_, ?_⟩
  · exact Key.not_mem_of_escape_eq stored.symm fun inside => (clear _ inside).1 rfl
  · intro c hc
    rw [← Key.break_mem_escape_iff hc]
    exact fresh c hc
  · intro c hc
    rw [Ne, ← Key.head?_escape_eq_mark_iff hc]
    exact visible c hc
  · rw [Key.toList_propertiesKey, ← stored]
    exact Key.trim_escape trimmed

end LocaleKeys.Properties
