import LocaleKeys.Markup.Document
import LocaleKeys.Proofs.Text

/-!
# Cutting a document in two

The cut goes over a document from left to right, so what it has come to in front of a place does not
depend on what follows (`Piece.exists_cutFrom_append`). Behind a place in text, the text goes up to
the next mark (`Piece.exists_cutFrom_text`). A comment there makes two texts of the one
(`Piece.exists_cut?`).
-/

namespace LocaleKeys.Markup.Piece

theorem consText_of_ne_nil {raw : List Char} (h : raw ≠ []) (pieces : List Piece) :
    consText raw pieces = .text raw :: pieces := by
  rw [consText, if_neg (by simpa using h)]

theorem consText_eq_append (raw : List Char) (pieces : List Piece) :
    consText raw pieces = consText raw [] ++ pieces := by
  rw [consText, consText]
  split
  · rfl
  · rfl

/-- A character ends pieces or none, and leads to another place, whatever follows. -/
theorem exists_cutFrom_cons (place : Place) (read : List Char) (c : Char) :
    ∃ pieces place' read', ∀ rest,
      cutFrom place read (c :: rest) = (cutFrom place' read' rest).map (pieces ++ ·) := by
  have going : ∀ {place' read'},
      (∀ rest, cutFrom place read (c :: rest) = cutFrom place' read' rest) →
      ∃ pieces place' read', ∀ rest,
        cutFrom place read (c :: rest) = (cutFrom place' read' rest).map (pieces ++ ·) := by
    intro place' read' step
    exact ⟨[], place', read', fun rest => by simp [step]⟩
  cases place with
  | text =>
    by_cases mark : c = '<'
    · refine ⟨consText read.reverse [], .mark, [], fun rest => ?_⟩
      rw [cutFrom, if_pos mark]
      exact congrArg (Option.map · _) (funext fun pieces => consText_eq_append _ pieces)
    · exact going fun rest => by rw [cutFrom, if_neg mark]
  | mark =>
    by_cases exclamation : c = '!'
    · exact going fun rest => by rw [cutFrom, if_pos exclamation]
    · by_cases question : c = '?'
      · exact going fun rest => by rw [cutFrom, if_neg exclamation, if_pos question]
      · by_cases slash : c = '/'
        · exact going fun rest => by
            rw [cutFrom, if_neg exclamation, if_neg question, if_pos slash]
        · exact going fun rest => by
            rw [cutFrom, if_neg exclamation, if_neg question, if_neg slash]
  | exclamation =>
    by_cases comment : c :: read = ['-', '-']
    · exact going fun rest => by rw [cutFrom, if_pos comment]
    · by_cases data : c :: read = ['[', 'A', 'T', 'A', 'D', 'C', '[']
      · exact going fun rest => by rw [cutFrom, if_neg comment, if_pos data]
      · exact going fun rest => by rw [cutFrom, if_neg comment, if_neg data]
  | opening quote =>
    cases quote with
    | none =>
      by_cases close : c = '>'
      · exact ⟨[.opening read.reverse], .text, [], fun rest => by rw [cutFrom, if_pos close]; rfl⟩
      · by_cases quote : c = '"' ∨ c = '\''
        · exact going fun rest => by rw [cutFrom, if_neg close, if_pos quote]
        · exact going fun rest => by rw [cutFrom, if_neg close, if_neg quote]
    | some quote =>
      by_cases close : c = quote
      · exact going fun rest => by rw [cutFrom, if_pos close]
      · exact going fun rest => by rw [cutFrom, if_neg close]
  | closing =>
    by_cases close : c = '>'
    · exact ⟨[.closing read.reverse], .text, [], fun rest => by rw [cutFrom, if_pos close]; rfl⟩
    · exact going fun rest => by rw [cutFrom, if_neg close]
  | comment =>
    by_cases close : ∃ body, c = '>' ∧ read = '-' :: '-' :: body
    · obtain ⟨body, rfl, rfl⟩ := close
      exact ⟨[.comment body.reverse], .text, [], fun rest => rfl⟩
    · exact going fun rest => by
        rw [cutFrom]
        exact fun body first same => close ⟨body, first, same⟩
  | data =>
    by_cases close : ∃ body, c = '>' ∧ read = ']' :: ']' :: body
    · obtain ⟨body, rfl, rfl⟩ := close
      exact ⟨[.data body.reverse], .text, [], fun rest => rfl⟩
    · exact going fun rest => by
        rw [cutFrom]
        exact fun body first same => close ⟨body, first, same⟩
  | instruction =>
    by_cases close : ∃ body, c = '>' ∧ read = '?' :: body
    · obtain ⟨body, rfl, rfl⟩ := close
      exact ⟨[.instruction body.reverse], .text, [], fun rest => rfl⟩
    · exact going fun rest => by
        rw [cutFrom]
        exact fun body first same => close ⟨body, first, same⟩

/-- In front of what follows, a text is cut into the same pieces and leads to the same place. -/
theorem exists_cutFrom_append (place : Place) (read front : List Char) :
    ∃ pieces place' read', ∀ rest,
      cutFrom place read (front ++ rest) = (cutFrom place' read' rest).map (pieces ++ ·) := by
  induction front generalizing place read with
  | nil => exact ⟨[], place, read, fun rest => by simp⟩
  | cons c front ih =>
    obtain ⟨pieces, place', read', step⟩ := exists_cutFrom_cons place read c
    obtain ⟨pieces', place'', read'', run⟩ := ih place' read'
    refine ⟨pieces ++ pieces', place'', read'', fun rest => ?_⟩
    rw [List.cons_append, step, run, Option.map_map]
    congr 1
    funext others
    rw [Function.comp_apply, List.append_assoc]

/-- A text that is cut to its end ends in text. -/
theorem exists_cut?_append {front : List Char} {pieces : List Piece}
    (h : cut? front = some pieces) :
    ∃ earlier read, pieces = earlier ++ consText read.reverse [] ∧
      ∀ rest, cut? (front ++ rest) = (cutFrom .text read rest).map (earlier ++ ·) := by
  obtain ⟨earlier, place, read, run⟩ := exists_cutFrom_append .text [] front
  have all := run []
  rw [List.append_nil, ← cut?, h, cutFrom] at all
  by_cases text : place = .text
  · subst text
    rw [if_pos rfl] at all
    exact ⟨earlier, read, Option.some.inj all, run⟩
  · rw [if_neg text] at all
    cases all

/-- Text goes up to the next mark, and what follows is cut in one way, whatever is in front. -/
theorem exists_cutFrom_text (document : List Char) :
    ∃ (raw : List Char) (others : Option (List Piece)), ∀ read,
      cutFrom .text read document = others.map (consText (read.reverse ++ raw)) := by
  induction document with
  | nil => exact ⟨[], some [], fun read => by simp [cutFrom]⟩
  | cons c rest ih =>
    by_cases mark : c = '<'
    · exact ⟨[], cutFrom .mark [] rest, fun read => by simp [cutFrom, mark]⟩
    · obtain ⟨raw, others, run⟩ := ih
      refine ⟨c :: raw, others, fun read => ?_⟩
      rw [cutFrom, if_neg mark, run, List.reverse_cons, List.append_assoc, List.singleton_append]

/-! ## Comments -/

/-- A comment in a document, with the text between its marks. -/
def commentOf (raw : List Char) : List Char :=
  "<!--".toList ++ raw ++ "-->".toList

/-- Two hyphens neither stand in a comment nor arise at its end. -/
theorem not_infix_of_isComment {raw : List Char} (h : Reading.isComment raw = true) :
    ¬ ['-', '-'] <:+: raw ++ ['-'] := by
  simp only [Reading.isComment, Bool.and_eq_true, Bool.not_eq_true', bne_iff_ne] at h
  obtain ⟨⟨-, none⟩, last⟩ := h
  rw [← List.reverse_infix, List.reverse_append, List.reverse_singleton, List.singleton_append]
  show ¬ ['-', '-'] <:+: '-' :: raw.reverse
  rw [Text.pair_infix_cons_iff, List.head?_reverse]
  rintro (⟨-, ends⟩ | inside)
  · exact last ends
  · rw [← Bool.not_eq_true, Text.containsWord_iff_infix, ← List.reverse_infix] at none
    exact none inside

/-- A comment goes up to its mark. -/
theorem cutFrom_comment {read raw : List Char} (h : ¬ ['-', '-'] <:+: read.reverse ++ raw ++ ['-'])
    (rest : List Char) :
    cutFrom .comment read (raw ++ "-->".toList ++ rest) =
      (cutFrom .text [] rest).map (.comment (read.reverse ++ raw) :: ·) := by
  induction raw generalizing read with
  | nil => simp [cutFrom]
  | cons c raw ih =>
    have going : ∀ body, read ≠ '-' :: '-' :: body := by
      rintro body rfl
      exact h ⟨body.reverse, c :: raw ++ ['-'], by simp⟩
    rw [List.cons_append, List.cons_append, cutFrom, ih (by simpa using h)]
    · simp
    · exact fun body _ same => going body same

/-- A comment in text ends it, and text begins behind it. -/
theorem cutFrom_commentOf {raw : List Char} (h : Reading.isComment raw = true)
    (read rest : List Char) :
    cutFrom .text read (commentOf raw ++ rest) =
      (cutFrom .text [] rest).map fun pieces => consText read.reverse (.comment raw :: pieces) := by
  have inside : cutFrom .comment [] (raw ++ "-->".toList ++ rest) =
      (cutFrom .text [] rest).map (.comment raw :: ·) :=
    cutFrom_comment (by simpa using not_infix_of_isComment h) rest
  have opening : cutFrom .text read (commentOf raw ++ rest) =
      (cutFrom .comment [] (raw ++ "-->".toList ++ rest)).map (consText read.reverse) := by
    simp [commentOf, cutFrom]
  rw [opening, inside, Option.map_map]
  rfl

/-- The pieces of a document that is cut in two in text, alone and with a comment between both
parts. -/
theorem exists_cut? {before after : List Char} {pieces : List Piece}
    (h : cut? before = some pieces) :
    ∃ (earlier : List Piece) (front behind : List Char) (others : Option (List Piece)),
      pieces = earlier ++ consText front [] ∧
      cut? (before ++ after) =
        (others.map fun later => earlier ++ consText (front ++ behind) later) ∧
      ∀ raw, Reading.isComment raw = true → cut? (before ++ (commentOf raw ++ after)) =
        others.map fun later =>
          earlier ++ consText front (.comment raw :: consText behind later) := by
  obtain ⟨earlier, read, rfl, run⟩ := exists_cut?_append h
  obtain ⟨behind, others, text⟩ := exists_cutFrom_text after
  refine ⟨earlier, read.reverse, behind, others, rfl, ?_, fun raw comment => ?_⟩
  · rw [run, text, Option.map_map]
    rfl
  · rw [run, cutFrom_commentOf comment, text, Option.map_map, Option.map_map]
    rfl

end LocaleKeys.Markup.Piece
