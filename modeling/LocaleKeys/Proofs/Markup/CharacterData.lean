import LocaleKeys.Markup.CharacterData
import LocaleKeys.Proofs.Text

/-!
# Character data in two parts

References are read one by one, so the characters of a text that is cut outside of references are
those of its parts (`Datum.read?_append`). A line end may be cut: its first half is a line end of
its own then. So the text in front of a cut is the front of the whole text up to white space
(`Datum.textValue_append`).
-/

namespace LocaleKeys.Markup.Datum

theorem readFrom_append {body : Option (List Char)} {raw : List Char} {data : List Datum}
    (h : readFrom body raw = some data) (more : List Char) :
    readFrom body (raw ++ more) = (readFrom none more).map (data ++ ·) := by
  induction raw generalizing body data with
  | nil =>
    cases body with
    | none =>
      cases h
      simp
    | some body => exact absurd h (by simp [readFrom])
  | cons c raw ih =>
    cases body with
    | none =>
      rw [List.cons_append, readFrom]
      rw [readFrom] at h
      by_cases mark : c = '&'
      · simp only [if_pos mark] at h ⊢
        exact ih h
      · simp only [if_neg mark, Option.map_eq_some_iff] at h ⊢
        obtain ⟨others, read, rfl⟩ := h
        simp [ih read, Function.comp_def]
    | some body =>
      rw [List.cons_append, readFrom]
      rw [readFrom] at h
      by_cases mark : c = ';'
      · simp only [if_pos mark, Option.bind_eq_some_iff, Option.map_eq_some_iff] at h ⊢
        obtain ⟨d, reference, others, read, rfl⟩ := h
        simp [reference, ih read, Function.comp_def]
      · simp only [if_neg mark] at h ⊢
        exact ih h

/-- What is read of a text behind another that ends outside of references. -/
theorem read?_append {raw : List Char} {data : List Datum} (h : read? raw = some data)
    (more : List Char) : read? (raw ++ more) = (read? more).map (data ++ ·) :=
  readFrom_append h more

/-! ## Line ends -/

/-- A written character changes no more of a text (in reverse) than a carriage return at its end. -/
theorem pushWritten_eq (text : List Char) (c : Char) (atEnd : Bool) :
    ∃ front kept, pushWritten text c atEnd = front ++ kept ∧ front ≠ [] ∧
      (text = kept ∨ text = '\r' :: kept) := by
  unfold pushWritten
  split
  · next kept =>
    split
    · exact ⟨['\n', '\n'], kept, rfl, by simp, .inr rfl⟩
    · split
      · exact ⟨['\n'], kept, rfl, by simp, .inr rfl⟩
      · exact ⟨[c, '\n'], kept, rfl, by simp, .inr rfl⟩
  · split
    · exact ⟨['\n'], text, rfl, by simp, .inl rfl⟩
    · exact ⟨[c], text, rfl, by simp, .inl rfl⟩

theorem exists_front_of_tail {front kept kept' : List Char} (nonempty : front ≠ [])
    (h : front ++ kept = kept' ∨ front ++ kept = '\r' :: kept') :
    ∃ front', kept' = front' ++ kept := by
  rcases h with rfl | h
  · exact ⟨front, rfl⟩
  · cases front with
    | nil => exact absurd rfl nonempty
    | cons c front => exact ⟨front, (List.cons.inj h).2.symm⟩

/-- More characters change no more of a text (in reverse) than a carriage return at its end. -/
theorem textFrom_eq (text : List Char) (afterReference : Bool) (data : List Datum) :
    ∃ rest kept, textFrom text afterReference data = rest ++ kept ∧
      (text = kept ∨ text = '\r' :: kept) := by
  induction data generalizing text afterReference with
  | nil => exact ⟨[], text, rfl, .inl rfl⟩
  | cons datum data ih =>
    -- What the character comes to is a text with the same end.
    have step : ∀ front kept flag, front ≠ [] → (text = kept ∨ text = '\r' :: kept) →
        ∃ rest kept', textFrom (front ++ kept) flag data = rest ++ kept' ∧
          (text = kept' ∨ text = '\r' :: kept') := by
      intro front kept flag nonempty same
      obtain ⟨rest, kept', run, tail⟩ := ih (front ++ kept) flag
      obtain ⟨front', rfl⟩ := exists_front_of_tail nonempty tail
      exact ⟨rest ++ front', kept, by rw [run, List.append_assoc], same⟩
    cases datum with
    | referenced c => exact step [c] text true (by simp) (.inl rfl)
    | written c =>
      rw [textFrom]
      split
      · exact step [c] text false (by simp) (.inl rfl)
      · obtain ⟨front, kept, pushed, nonempty, same⟩ := pushWritten_eq text c data.isEmpty
        rw [pushed]
        exact step front kept false nonempty same

/-- The last character before a cut is white space, or the cut makes no difference for it. -/
theorem pushWritten_cut (text : List Char) (c : Char) :
    pushWritten text c true = pushWritten text c false ∨
      ∃ kept, pushWritten text c true = '\n' :: kept ∧ pushWritten text c false = '\r' :: kept := by
  unfold pushWritten
  by_cases cr : c = '\r'
  · subst cr
    right
    split
    · next kept => exact ⟨'\n' :: kept, by simp, by simp⟩
    · exact ⟨text, by simp, by simp⟩
  · left
    split <;> simp [cr]

/-- The text (in reverse) of the first of two parts is the end of that of both up to white space. -/
theorem textFrom_append (text : List Char) (afterReference : Bool) (data more : List Datum) :
    ∃ ends rest kept, textFrom text afterReference data = ends ++ kept ∧
      textFrom text afterReference (data ++ more) = rest ++ kept ∧
      ∀ c ∈ ends, Text.isSpace c = true := by
  induction data generalizing text afterReference with
  | nil =>
    obtain ⟨rest, kept, run, same | same⟩ := textFrom_eq text afterReference more
    · exact ⟨[], rest, kept, same, run, nofun⟩
    · exact ⟨['\r'], rest, kept, same, run, List.forall_mem_singleton.mpr rfl⟩
  | cons datum data ih =>
    cases datum with
    | referenced c => exact ih (c :: text) true
    | written c =>
      cases afterReference with
      | true => exact ih (c :: text) false
      | false =>
        rw [List.cons_append, textFrom, textFrom]
        simp only [Bool.false_eq_true, if_false]
        cases data with
        | cons next data => exact ih (pushWritten text c false) false
        | nil =>
          rw [List.nil_append, List.isEmpty_nil]
          cases more with
          | nil => exact ⟨[], [], _, rfl, rfl, nofun⟩
          | cons next more =>
            obtain ⟨rest, kept, run, same⟩ := textFrom_eq (pushWritten text c false) false
              (next :: more)
            rcases pushWritten_cut text c with cut | ⟨kept', cut, uncut⟩
            · rcases same with same | same
              · exact ⟨[], rest, kept, cut.trans same, run, nofun⟩
              · exact ⟨['\r'], rest, kept, cut.trans same, run, List.forall_mem_singleton.mpr rfl⟩
            · rw [uncut] at same
              have newline : ∀ c ∈ ['\n'], Text.isSpace c = true := List.forall_mem_singleton.mpr rfl
              rcases same with rfl | same
              · exact ⟨['\n'], rest ++ ['\r'], kept', cut, by simpa using run, newline⟩
              · obtain rfl := (List.cons.inj same).2
                exact ⟨['\n'], rest, kept', cut, run, newline⟩

/-- The text of the first of two parts is the front of that of both up to white space. -/
theorem textValue_append (data more : List Datum) :
    ∃ kept ends rest, textValue data = kept ++ ends ∧ textValue (data ++ more) = kept ++ rest ∧
      ∀ c ∈ ends, Text.isSpace c = true := by
  obtain ⟨ends, rest, kept, first, both, spaces⟩ := textFrom_append [] false data more
  refine ⟨kept.reverse, ends.reverse, rest.reverse, ?_, ?_, by simpa using spaces⟩
  · rw [textValue, first, List.reverse_append]
  · rw [textValue, both, List.reverse_append]

end LocaleKeys.Markup.Datum
