import LocaleKeys.Markup.Document

/-!
# Reading up to a place

What has been read of a document at a place (`read?`) starts behind the byte order mark and the
declaration. Both end in front of every place inside an element, so they are the same whatever
follows that place (`dropDeclaration?_append`): each part of a declaration ends at a character of
its own, and a question mark is still to come.
-/

namespace LocaleKeys.Markup

/-- What the pieces of a document without a declaration come to. -/
def readBody? (text : List Char) : Option Reading :=
  (Piece.cut? text).bind fun pieces => pieces.foldlM Reading.next? .start

/-- What has been read of a document that is cut off at some place. -/
def read? (document : List Char) : Option Reading :=
  (dropDeclaration? (dropMark document)).bind readBody?

theorem parse?_eq (document : List Char) :
    parse? document = (read? document).bind Reading.finish? := by
  simp only [parse?, read?, readBody?, Option.bind_assoc]

/-! ## Runs of characters -/

theorem dropWhile_append_of_ne_nil {p : Char → Bool} {text : List Char}
    (h : text.dropWhile p ≠ []) (more : List Char) :
    (text ++ more).dropWhile p = text.dropWhile p ++ more := by
  rw [List.dropWhile_append, if_neg (by simpa using h)]

theorem takeWhile_append_of_ne_nil {p : Char → Bool} {text : List Char}
    (h : text.dropWhile p ≠ []) (more : List Char) :
    (text ++ more).takeWhile p = text.takeWhile p := by
  rw [List.takeWhile_append, if_neg]
  intro all
  have lengths := congrArg List.length (List.takeWhile_append_dropWhile (p := p) (l := text))
  rw [List.length_append, all] at lengths
  exact h (List.length_eq_zero_iff.mp (by omega))

theorem afterWord?_append {word text rest : List Char} (h : Text.afterWord? word text = some rest)
    (more : List Char) : Text.afterWord? word (text ++ more) = some (rest ++ more) := by
  rw [Text.afterWord?_eq_some_iff] at h ⊢
  rw [h, List.append_assoc]

/-- A text that does not start with a word, and is no front of it, does not do so with more text. -/
theorem afterWord?_append_eq_none {word text : List Char} (h : Text.afterWord? word text = none)
    (front : ¬ text <+: word) (more : List Char) : Text.afterWord? word (text ++ more) = none := by
  rw [Option.eq_none_iff_forall_ne_some]
  intro rest found
  rw [Text.afterWord?_eq_some_iff] at found
  rcases List.prefix_or_prefix_of_prefix (List.prefix_append text more) ⟨rest, found.symm⟩ with
    inside | ⟨rest', split⟩
  · exact front inside
  · rw [Text.afterWord?_eq_some_iff.mpr split.symm] at h
    cases h

/-! ## Attributes -/

theorem readQuoted?_append {text value rest : List Char}
    (h : readQuoted? text = some (value, rest)) (more : List Char) :
    readQuoted? (text ++ more) = some (value, rest ++ more) := by
  cases text with
  | nil => cases h
  | cons quote text =>
    rw [readQuoted?] at h
    rw [List.cons_append, readQuoted?]
    by_cases isQuote : quote = '"' ∨ quote = '\''
    · simp only [if_pos isQuote] at h ⊢
      split at h
      · cases h
      · next c tail behind =>
        have nonempty : (text.dropWhile fun c => c != quote && c != '<') ≠ [] := by
          rw [behind]
          exact List.cons_ne_nil _ _
        rw [dropWhile_append_of_ne_nil nonempty, takeWhile_append_of_ne_nil nonempty, behind]
        simp only [List.cons_append]
        split at h
        · next closes =>
          cases h
          rw [if_pos closes]
        · cases h
    · rw [if_neg isQuote] at h
      cases h

theorem readValue?_append {text value rest : List Char}
    (h : readValue? text = some (value, rest)) (more : List Char) :
    readValue? (text ++ more) = some (value, rest ++ more) := by
  rw [readValue?] at h
  split at h
  · next tail equals =>
    have nonempty : skipSpaces text ≠ [] := by
      rw [equals]
      exact List.cons_ne_nil _ _
    have nonempty' : skipSpaces tail ≠ [] := by
      intro empty
      rw [empty] at h
      cases h
    rw [readValue?, skipSpaces, dropWhile_append_of_ne_nil nonempty, ← skipSpaces, equals]
    show readQuoted? (skipSpaces (tail ++ more)) = _
    rw [skipSpaces, dropWhile_append_of_ne_nil nonempty']
    exact readQuoted?_append h more
  · cases h

theorem readAttribute?_append {text rest : List Char} {found : Attribute}
    (h : readAttribute? text = some (found, rest)) (more : List Char) :
    readAttribute? (text ++ more) = some (found, rest ++ more) := by
  simp only [readAttribute?, readName?, Option.bind_eq_some_iff, Option.map_eq_some_iff] at h ⊢
  obtain ⟨⟨name, behind⟩, ⟨_, named, same⟩, ⟨value, rest'⟩, read, result⟩ := h
  cases same
  cases result
  have nonempty : text.dropWhile isNameChar ≠ [] := by
    intro empty
    rw [empty] at read
    cases read
  rw [takeWhile_append_of_ne_nil nonempty, dropWhile_append_of_ne_nil nonempty]
  exact ⟨_, ⟨name, named, rfl⟩, _, readValue?_append read more, rfl⟩

theorem readQuoted?_suffix {text value rest : List Char}
    (h : readQuoted? text = some (value, rest)) : rest <:+ text := by
  cases text with
  | nil => cases h
  | cons quote text =>
    rw [readQuoted?] at h
    split at h
    · split at h
      · cases h
      · next c tail behind =>
        dsimp only at h
        split at h
        · cases h
          have suffix := List.dropWhile_suffix (l := text) fun c => c != quote && c != '<'
          rw [behind] at suffix
          exact ((List.suffix_cons c _).trans suffix).trans (List.suffix_cons quote text)
        · cases h
    · cases h

theorem readAttribute?_suffix {text rest : List Char} {found : Attribute}
    (h : readAttribute? text = some (found, rest)) : rest <:+ text := by
  simp only [readAttribute?, readName?, Option.bind_eq_some_iff, Option.map_eq_some_iff] at h
  obtain ⟨⟨name, behind⟩, ⟨_, named, same⟩, ⟨value, rest'⟩, read, result⟩ := h
  cases same
  cases result
  rw [readValue?] at read
  split at read
  · next tail equals =>
    have first := List.dropWhile_suffix (l := text.dropWhile isNameChar) isSpace
    rw [← skipSpaces, equals] at first
    have second : skipSpaces tail <:+ '=' :: tail :=
      (List.dropWhile_suffix _).trans (List.suffix_cons _ _)
    exact (((readQuoted?_suffix read).trans second).trans first).trans (List.dropWhile_suffix _)
  · cases read

/-! ## The declaration -/

/-- An attribute of a declaration is read, or found missing, in front of the question mark. -/
theorem dropAttribute?_append {word text : List Char} {dropped : Option (List Char)}
    (h : dropAttribute? word text = some dropped) (ahead : '?' ∈ dropped.getD text)
    (plain : '?' ∉ word) (more : List Char) :
    dropAttribute? word (text ++ more) = some (dropped.map (· ++ more)) ∧ '?' ∈ text := by
  rw [dropAttribute?] at h ⊢
  cases found : Text.afterWord? word text with
  | some rest =>
    rw [found, Option.isSome_some, if_pos rfl, Option.map_eq_some_iff] at h
    obtain ⟨⟨attr, rest'⟩, read, rfl⟩ := h
    rw [afterWord?_append found, Option.isSome_some, if_pos rfl, readAttribute?_append read]
    exact ⟨rfl, (readAttribute?_suffix read).subset ahead⟩
  | none =>
    rw [found, Option.isSome_none] at h
    cases h
    have front : ¬ text <+: word := fun front => plain (front.subset ahead)
    rw [afterWord?_append_eq_none found front]
    exact ⟨rfl, ahead⟩

theorem skipSpaces_append {text : List Char} (ahead : '?' ∈ skipSpaces text) (more : List Char) :
    skipSpaces (text ++ more) = skipSpaces text ++ more ∧ '?' ∈ text :=
  ⟨dropWhile_append_of_ne_nil (List.ne_nil_of_mem ahead) more,
    (List.dropWhile_suffix _).subset ahead⟩

theorem skipGap?_append {text rest : List Char} (h : skipGap? text = some rest)
    (ahead : '?' ∈ rest) (more : List Char) :
    skipGap? (text ++ more) = some (rest ++ more) ∧ '?' ∈ text := by
  rw [skipGap?] at h ⊢
  split at h
  · next gap =>
    cases h
    obtain ⟨skipped, inside⟩ := skipSpaces_append ahead more
    refine ⟨?_, inside⟩
    rw [if_pos, skipped]
    obtain ⟨c, tail, rfl⟩ := List.exists_cons_of_ne_nil (List.ne_nil_of_mem inside)
    rw [Bool.or_eq_true] at gap ⊢
    refine gap.imp id fun mark => ?_
    obtain ⟨rest', found⟩ := Option.isSome_iff_exists.mp mark
    rw [afterWord?_append found, Option.isSome_some]
  · cases h

/-- The end of a declaration, which may say that the document stands alone. -/
def dropEnd? (text : List Char) : Option (List Char) :=
  (dropAttribute? "standalone".toList text).bind fun dropped =>
    Text.afterWord? "?>".toList (skipSpaces (dropped.getD text))

theorem dropEnd?_append {text rest : List Char} (h : dropEnd? text = some rest)
    (more : List Char) : dropEnd? (text ++ more) = some (rest ++ more) ∧ '?' ∈ text := by
  obtain ⟨dropped, attr, ending⟩ := Option.bind_eq_some_iff.mp h
  have mark := Text.afterWord?_eq_some_iff.mp ending
  have ahead : '?' ∈ skipSpaces (dropped.getD text) := by simp [mark]
  obtain ⟨skipped, ahead⟩ := skipSpaces_append ahead more
  obtain ⟨attr', inside⟩ := dropAttribute?_append attr ahead (by decide) more
  refine ⟨?_, inside⟩
  rw [dropEnd?, attr', Option.bind_some, ← afterWord?_append ending, ← skipped]
  cases dropped with
  | none => rfl
  | some dropped => rfl

/-- A declaration is followed by what stands behind it. -/
theorem dropDeclaration?_append {text rest : List Char} (h : dropDeclaration? text = some rest)
    (front : ¬ text <+: "<?xml ".toList) (more : List Char) :
    dropDeclaration? (text ++ more) = some (rest ++ more) := by
  unfold dropDeclaration? at h ⊢
  cases found : Text.afterWord? "<?xml ".toList text with
  | none =>
    rw [found] at h
    cases h
    rw [afterWord?_append_eq_none found front]
  | some declared =>
    rw [found] at h
    rw [afterWord?_append found]
    simp only [bind, Option.bind_eq_some_iff] at h ⊢
    obtain ⟨_, version, versioned, rfl, gapped, gap, encoded?, encoding, ending⟩ := h
    -- Each part has the question mark ahead of it, from the last part back to the first.
    have encoding' : '?' ∈ gapped ∧ dropAttribute? "encoding".toList (gapped ++ more) =
        some (encoded?.map (· ++ more)) ∧
        encoded?.elim (dropEnd? (gapped ++ more))
          (fun encoded => (skipGap? (encoded ++ more)).bind dropEnd?) = some (rest ++ more) := by
      cases encoded? with
      | none =>
        obtain ⟨ending, ahead⟩ := dropEnd?_append ending more
        exact ⟨ahead, (dropAttribute?_append encoding ahead (by decide) more).1, ending⟩
      | some encoded =>
        obtain ⟨rest', gap, ending⟩ := Option.bind_eq_some_iff.mp ending
        obtain ⟨ending, ahead⟩ := dropEnd?_append ending more
        obtain ⟨gap, ahead⟩ := skipGap?_append gap ahead more
        obtain ⟨encoding, ahead⟩ := dropAttribute?_append encoding ahead (by decide) more
        exact ⟨ahead, encoding, Option.bind_eq_some_iff.mpr ⟨_, gap, ending⟩⟩
    obtain ⟨ahead, encoding, ending⟩ := encoding'
    obtain ⟨gap, ahead⟩ := skipGap?_append gap ahead more
    obtain ⟨version, ahead⟩ := dropAttribute?_append version ahead (by decide) more
    rw [(skipSpaces_append ahead more).1]
    exact ⟨_, version, _, rfl, _, gap, _, encoding, by cases encoded? <;> exact ending⟩

theorem dropMark_append {text : List Char} (h : text ≠ []) (more : List Char) :
    dropMark (text ++ more) = dropMark text ++ more := by
  obtain ⟨c, text, rfl⟩ := List.exists_cons_of_ne_nil h
  rw [List.cons_append]
  unfold dropMark
  by_cases mark : c = '\uFEFF'
  · subst mark
    rfl
  · split
    · next same => exact absurd (List.cons.inj same).1 mark
    · split
      · next same => exact absurd (List.cons.inj same).1 mark
      · rfl

/-- No element is open in a document that is cut off in its first mark. -/
theorem opened_of_front {text : List Char} {reading : Reading} (front : text <+: "<?xml ".toList)
    (h : (dropDeclaration? text).bind readBody? = some reading) : reading.opened = [] := by
  have characters : "<?xml ".toList = ['<', '?', 'x', 'm', 'l', ' '] := rfl
  simp only [characters, List.prefix_cons_iff, List.prefix_nil] at front
  rcases front with rfl | ⟨_, rfl, rfl | ⟨_, rfl, rfl | ⟨_, rfl, rfl | ⟨_, rfl, rfl | ⟨_, rfl, rfl |
    ⟨_, rfl, rfl⟩⟩⟩⟩⟩⟩
  · cases h
    rfl
  all_goals exact absurd (show none = some reading from h) nofun

/-- Inside of an element, the mark and the declaration of the document are over. -/
theorem exists_body {before : List Char} {reading : Reading} (h : read? before = some reading)
    (inside : reading.opened ≠ []) :
    ∃ body, readBody? body = some reading ∧
      ∀ more, dropDeclaration? (dropMark (before ++ more)) = some (body ++ more) := by
  obtain ⟨body, dropped, pieces⟩ := Option.bind_eq_some_iff.mp h
  have nonempty : before ≠ [] := by
    rintro rfl
    cases h
    exact inside rfl
  refine ⟨body, pieces, fun more => ?_⟩
  rw [dropMark_append nonempty]
  exact dropDeclaration?_append dropped (fun front => inside (opened_of_front front h)) more

end LocaleKeys.Markup
