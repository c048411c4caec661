import LocaleKeys.Proofs.CallSite.Opening
import LocaleKeys.Proofs.Cursor

/-!
# The scan reads every call of a text

A place of a text is a way to cut it into `before ++ rest`. The calls that the scan visits are those
that begin at some place, each once and from left to right (`mem_calls_iff`, `calls_pairwise`), and
each stands where its cursor says it does. A call either gives a key or is malformed; `scan_exact`
puts together what a whole scan comes to.
-/

namespace LocaleKeys.CallSite

/-- The call that is followed by `opened` has the key, and the key can be stored. -/
def GivesKey (opened : List Char) (key : Key) : Prop :=
  ∃ arguments, argumentList? opened = some arguments ∧
    key = ⟨String.ofList (firstLiteral arguments)⟩ ∧ key.defect? = none

/-- What is wrong with the call that begins `rest` and that is followed by `opened`. -/
inductive Malformed (rest opened : List Char) : ExtractionError.Cause → Prop where
  | unbalanced : argumentList? opened = none →
      Malformed rest opened (.unbalancedParentheses (snippet rest))
  | unusable (arguments : List Char) (key : Key) (defect : Key.Defect) :
      argumentList? opened = some arguments → key = ⟨String.ofList (firstLiteral arguments)⟩ →
      key.defect? = some defect → Malformed rest opened (.unusableKey key.text defect)

/-- Every call of a text gives a key. -/
def AllGiveKeys (bundle : Bundle) (text : List Char) : Prop :=
  ∀ before rest opened, text = before ++ rest → OpensCall bundle rest opened →
    ∃ key, GivesKey opened key

theorem givesKey_or_malformed (rest opened : List Char) :
    (∃ key, GivesKey opened key) ∨ ∃ cause, Malformed rest opened cause := by
  cases list : argumentList? opened with
  | none => exact .inr ⟨_, .unbalanced list⟩
  | some arguments =>
    cases fault : (Key.mk (String.ofList (firstLiteral arguments))).defect? with
    | none => exact .inl ⟨_, arguments, list, rfl, fault⟩
    | some defect => exact .inr ⟨_, .unusable arguments _ defect list rfl fault⟩

/-! ## One call -/

/-- The occurrence of a key at a call. -/
def Call.occurrenceOf (call : Call) (key : Key) : KeyOccurrence :=
  ⟨key, call.cursor.position, String.ofList call.cursor.line⟩

theorem Call.occurrence?_of_givesKey {call : Call} {key : Key} (h : GivesKey call.opened key) :
    call.occurrence? = .ok (if key.isBlank then none else some (call.occurrenceOf key)) := by
  obtain ⟨arguments, list, rfl, sound⟩ := h
  unfold Call.occurrence?
  simp only [list, sound]
  split <;> rfl

theorem Call.occurrence?_of_malformed {call : Call} {cause : ExtractionError.Cause}
    (h : Malformed call.text call.opened cause) :
    call.occurrence? = .error ⟨call.cursor.position, cause⟩ := by
  unfold Call.occurrence?
  cases h with
  | unbalanced list => simp only [list]
  | unusable arguments key defect list same fault =>
    subst same
    simp only [list, fault]

theorem GivesKey.unique {opened : List Char} {key key' : Key} (h : GivesKey opened key)
    (h' : GivesKey opened key') : key = key' := by
  obtain ⟨arguments, list, rfl, -⟩ := h
  obtain ⟨arguments', list', rfl, -⟩ := h'
  cases Option.some.inj (list.symm.trans list')
  rfl

/-! ## A list of calls -/

/-- Calls that give keys come to their keys, in order, without those that name nothing. -/
theorem occurrences_of_givesKey {list : List Call}
    (h : ∀ call ∈ list, ∃ key, GivesKey call.opened key) :
    ∃ found, occurrences list = .ok found ∧
      (found.map (·.position)).Sublist (list.map (·.cursor.position)) ∧
      ∀ o, o ∈ found ↔ ∃ call ∈ list, GivesKey call.opened o.key ∧ o.key.isBlank = false ∧
        o = call.occurrenceOf o.key := by
  induction list with
  | nil => exact ⟨[], rfl, .slnil, by simp⟩
  | cons call more ih =>
    obtain ⟨key, gives⟩ := h call (by simp)
    obtain ⟨others, run, sub, mem⟩ := ih fun c hc => h c (by simp [hc])
    have step := Call.occurrence?_of_givesKey gives
    by_cases blank : key.isBlank = true
    · refine ⟨others, by simp [occurrences, step, run, blank], sub.cons _, fun o => ?_⟩
      rw [mem o]
      constructor
      · rintro ⟨c, hc, rest⟩
        exact ⟨c, by simp [hc], rest⟩
      · rintro ⟨c, hc, gives', full, same⟩
        rcases List.mem_cons.mp hc with rfl | hc
        · rw [gives'.unique gives, blank] at full
          exact absurd full (by simp)
        · exact ⟨c, hc, gives', full, same⟩
    · have full : key.isBlank = false := by simpa using blank
      refine ⟨call.occurrenceOf key :: others, by simp [occurrences, step, run, full],
        sub.cons_cons _, fun o => ?_⟩
      rw [List.mem_cons, mem o]
      constructor
      · rintro (rfl | ⟨c, hc, rest⟩)
        · exact ⟨call, by simp, gives, full, rfl⟩
        · exact ⟨c, by simp [hc], rest⟩
      · rintro ⟨c, hc, gives', full', same⟩
        rcases List.mem_cons.mp hc with rfl | hc
        · rw [gives'.unique gives] at same
          exact .inl same
        · exact .inr ⟨c, hc, gives', full', same⟩

/-- The first malformed call ends the run. -/
theorem occurrences_of_malformed {before after : List Call} {call : Call}
    {cause : ExtractionError.Cause} (sound : ∀ c ∈ before, ∃ key, GivesKey c.opened key)
    (h : Malformed call.text call.opened cause) :
    occurrences (before ++ call :: after) = .error ⟨call.cursor.position, cause⟩ := by
  induction before with
  | nil =>
    rw [List.nil_append, occurrences, Call.occurrence?_of_malformed h]
  | cons first before ih =>
    obtain ⟨key, gives⟩ := sound first (by simp)
    rw [List.cons_append, occurrences, Call.occurrence?_of_givesKey gives,
      ih fun c hc => sound c (by simp [hc])]

/-- A list of calls that do not all give keys has a first malformed one. -/
theorem exists_first_malformed {list : List Call}
    (h : ¬ ∀ call ∈ list, ∃ key, GivesKey call.opened key) :
    ∃ before call after cause, list = before ++ call :: after ∧
      (∀ c ∈ before, ∃ key, GivesKey c.opened key) ∧ Malformed call.text call.opened cause := by
  induction list with
  | nil => exact absurd (by simp) h
  | cons call more ih =>
    rcases givesKey_or_malformed call.text call.opened with sound | ⟨cause, bad⟩
    · have rest : ¬ ∀ c ∈ more, ∃ key, GivesKey c.opened key := by
        intro all
        exact h (by simpa using ⟨sound, all⟩)
      obtain ⟨before, c, after, cause, rfl, all, bad⟩ := ih rest
      exact ⟨call :: before, c, after, cause, rfl, by simpa using ⟨sound, all⟩, bad⟩
    · exact ⟨[], call, more, cause, rfl, by simp, bad⟩

/-! ## The calls of a text -/

theorem mem_callsEverywhere {bundle : Bundle} {cursor : Cursor} {before text : List Char}
    {call : Call} (h : cursor.StandsAt before text)
    (hc : call ∈ callsEverywhere bundle cursor text) :
    ∃ passed, text = passed ++ call.text ∧ OpensCall bundle call.text call.opened ∧
      call.cursor.StandsAt (before ++ passed) call.text := by
  induction text generalizing cursor before with
  | nil => exact absurd hc List.not_mem_nil
  | cons c rest ih =>
    rw [callsEverywhere, List.mem_append] at hc
    rcases hc with hc | hc
    · simp only [Option.mem_toList, Option.map_eq_some_iff] at hc
      obtain ⟨opened, found, rfl⟩ := hc
      exact ⟨[], rfl, afterOpening?_eq_some_iff.mp found, by simpa using h⟩
    · obtain ⟨passed, split, opens, stands⟩ := ih h.advance hc
      exact ⟨c :: passed, congrArg (c :: ·) split, opens, by simpa using stands⟩

theorem exists_mem_callsEverywhere {bundle : Bundle} {cursor : Cursor}
    {passed rest opened : List Char} (h : OpensCall bundle rest opened) :
    ∃ call ∈ callsEverywhere bundle cursor (passed ++ rest),
      call.text = rest ∧ call.opened = opened := by
  induction passed generalizing cursor with
  | nil =>
    obtain ⟨matched, shape, rfl⟩ := id h
    obtain ⟨tail, rfl, -⟩ := shape.exists_cons
    have found := afterOpening?_eq_some_iff.mpr h
    rw [List.cons_append] at found
    refine ⟨⟨cursor, 'L' :: tail ++ opened, opened⟩, ?_, rfl, rfl⟩
    simp [callsEverywhere, found]
  | cons c passed ih =>
    obtain ⟨call, hc, text, same⟩ := ih
    refine ⟨call, ?_, text, same⟩
    rw [List.cons_append, callsEverywhere]
    exact List.mem_append_right _ hc

theorem length_text_le {bundle : Bundle} {cursor : Cursor} {text : List Char} {call : Call}
    (hc : call ∈ callsEverywhere bundle cursor text) : call.text.length ≤ text.length := by
  induction text generalizing cursor with
  | nil => exact absurd hc List.not_mem_nil
  | cons c rest ih =>
    rw [callsEverywhere, List.mem_append] at hc
    rcases hc with hc | hc
    · simp only [Option.mem_toList, Option.map_eq_some_iff] at hc
      obtain ⟨opened, -, rfl⟩ := hc
      exact Nat.le_refl _
    · exact Nat.le_succ_of_le (ih hc)

theorem callsEverywhere_pairwise (bundle : Bundle) (cursor : Cursor) (text : List Char) :
    (callsEverywhere bundle cursor text).Pairwise fun a b => b.text.length < a.text.length := by
  induction text generalizing cursor with
  | nil => exact .nil
  | cons c rest ih =>
    rw [callsEverywhere]
    cases afterOpening? bundle (c :: rest) with
    | none => exact ih _
    | some opened => exact .cons (fun call hc => Nat.lt_succ_of_le (length_text_le hc)) (ih _)

/-- From left to right, each call once. -/
theorem calls_pairwise (bundle : Bundle) (text : List Char) :
    (calls bundle text).Pairwise fun a b => b.text.length < a.text.length := by
  rw [calls_eq_callsEverywhere]
  exact callsEverywhere_pairwise bundle _ text

theorem exists_passed_of_mem_calls {bundle : Bundle} {text : List Char} {call : Call}
    (hc : call ∈ calls bundle text) :
    ∃ passed, text = passed ++ call.text ∧ OpensCall bundle call.text call.opened ∧
      call.cursor.StandsAt passed call.text := by
  rw [calls_eq_callsEverywhere] at hc
  exact mem_callsEverywhere (Cursor.standsAt_start text) hc

theorem exists_mem_calls {bundle : Bundle} {text before rest opened : List Char}
    (split : text = before ++ rest) (h : OpensCall bundle rest opened) :
    ∃ call ∈ calls bundle text, call.text = rest ∧ call.opened = opened := by
  subst split
  rw [calls_eq_callsEverywhere]
  exact exists_mem_callsEverywhere h

/-- The calls that are visited are those that begin at some place of the text. -/
theorem mem_calls_iff {bundle : Bundle} {text rest opened : List Char} :
    (∃ call ∈ calls bundle text, call.text = rest ∧ call.opened = opened) ↔
      rest <:+ text ∧ OpensCall bundle rest opened := by
  constructor
  · rintro ⟨call, hc, rfl, rfl⟩
    obtain ⟨passed, split, opens, -⟩ := exists_passed_of_mem_calls hc
    exact ⟨⟨passed, split.symm⟩, opens⟩
  · rintro ⟨⟨before, split⟩, opens⟩
    exact exists_mem_calls split.symm opens

/-- Calls stand at increasing positions. -/
theorem calls_positions_pairwise (bundle : Bundle) (text : List Char) :
    ((calls bundle text).map (·.cursor.position)).Pairwise Position.Before := by
  rw [List.pairwise_map]
  refine (calls_pairwise bundle text).imp_of_mem ?_
  intro a b ha hb shorter
  obtain ⟨passed, split, -, stands⟩ := exists_passed_of_mem_calls ha
  obtain ⟨passed', split', -, stands'⟩ := exists_passed_of_mem_calls hb
  -- What is passed before the second call goes on behind what is passed before the first.
  obtain ⟨more, rfl⟩ : passed <+: passed' := by
    have lengths := congrArg List.length (split.symm.trans split')
    simp only [List.length_append] at lengths
    exact List.prefix_of_prefix_length_le ⟨_, split.symm⟩ ⟨_, split'.symm⟩ (by omega)
  rw [stands.position, stands'.position]
  apply Position.before_after_append
  rintro rfl
  rw [List.append_nil] at split'
  have same := List.append_cancel_left (split.symm.trans split')
  rw [same] at shorter
  exact Nat.lt_irrefl _ shorter

theorem givesKey_of_mem_calls {bundle : Bundle} {text : List Char} (h : AllGiveKeys bundle text) :
    ∀ call ∈ calls bundle text, ∃ key, GivesKey call.opened key := by
  intro call hc
  obtain ⟨passed, split, opens, -⟩ := exists_passed_of_mem_calls hc
  exact h passed call.text call.opened split opens

theorem allGiveKeys_of_calls {bundle : Bundle} {text : List Char}
    (h : ∀ call ∈ calls bundle text, ∃ key, GivesKey call.opened key) :
    AllGiveKeys bundle text := by
  intro before rest opened split opens
  obtain ⟨call, hc, rfl, rfl⟩ := exists_mem_calls split opens
  exact h call hc

/-! ## The scan -/

/-- A scan of calls that all give keys finds each key that names something, at the place of its
call. -/
theorem scan_of_allGiveKeys {bundle : Bundle} {text : List Char} (h : AllGiveKeys bundle text) :
    ∃ found, scan bundle text = .ok found ∧ (found.map (·.position)).Pairwise Position.Before ∧
      ∀ o, o ∈ found ↔ ∃ before rest opened, text = before ++ rest ∧
        OpensCall bundle rest opened ∧ GivesKey opened o.key ∧ o.key.isBlank = false ∧
        o.position = Position.after before ∧
        o.sourceLine = String.ofList (lineText text o.position.line) := by
  obtain ⟨found, run, sub, mem⟩ := occurrences_of_givesKey (givesKey_of_mem_calls h)
  refine ⟨found, run, (calls_positions_pairwise bundle text).sublist sub, fun o => ?_⟩
  rw [mem o]
  constructor
  · rintro ⟨call, hc, gives, full, same⟩
    obtain ⟨passed, split, opens, stands⟩ := exists_passed_of_mem_calls hc
    refine ⟨passed, call.text, call.opened, split, opens, gives, full, ?_, ?_⟩
    · rw [same]
      exact stands.position
    · have line := stands.line_eq
      rw [← stands.position] at line
      rw [same, split]
      exact congrArg String.ofList line
  · rintro ⟨before, rest, opened, split, opens, gives, full, position, line⟩
    obtain ⟨call, hc, rfl, rfl⟩ := exists_mem_calls split opens
    obtain ⟨passed, split', -, stands⟩ := exists_passed_of_mem_calls hc
    obtain rfl : before = passed := List.append_cancel_right (split.symm.trans split')
    refine ⟨call, hc, gives, full, ?_⟩
    obtain ⟨key, position', line'⟩ := o
    simp only at position line
    subst position line
    rw [Call.occurrenceOf, stands.position, stands.line_eq, split]

/-- A scan of calls that do not all give keys comes to what is wrong with the first that gives
none. -/
theorem scan_of_not_allGiveKeys {bundle : Bundle} {text : List Char}
    (h : ¬ AllGiveKeys bundle text) :
    ∃ before rest opened cause, text = before ++ rest ∧ OpensCall bundle rest opened ∧
      Malformed rest opened cause ∧
      (∀ before' rest' opened', text = before' ++ rest' → before'.length < before.length →
        OpensCall bundle rest' opened' → ∃ key, GivesKey opened' key) ∧
      scan bundle text = .error ⟨Position.after before, cause⟩ := by
  obtain ⟨first, call, after, cause, list, sound, bad⟩ :=
    exists_first_malformed fun all => h (allGiveKeys_of_calls all)
  have hc : call ∈ calls bundle text := by simp [list]
  obtain ⟨passed, split, opens, stands⟩ := exists_passed_of_mem_calls hc
  refine ⟨passed, call.text, call.opened, cause, split, opens, bad, ?_, ?_⟩
  · intro before' rest' opened' split' shorter opens'
    obtain ⟨call', hc', rfl, rfl⟩ := exists_mem_calls split' opens'
    -- An earlier call is visited earlier.
    have lengths := congrArg List.length (split.symm.trans split')
    simp only [List.length_append] at lengths
    have order := calls_pairwise bundle text
    rw [list] at order hc'
    rcases List.mem_append.mp hc' with hc' | hc'
    · exact sound call' hc'
    · have later : call'.text.length ≤ call.text.length := by
        rcases List.mem_cons.mp hc' with rfl | hc'
        · exact Nat.le_refl _
        · exact Nat.le_of_lt (List.rel_of_pairwise_cons (List.pairwise_append.mp order).2.1 hc')
      omega
  · rw [scan, list, occurrences_of_malformed sound bad, stands.position]

theorem allGiveKeys_of_scan {bundle : Bundle} {text : List Char} {found : List KeyOccurrence}
    (h : scan bundle text = .ok found) : AllGiveKeys bundle text := by
  apply Classical.byContradiction
  intro bad
  obtain ⟨_, _, _, _, -, -, -, -, failed⟩ := scan_of_not_allGiveKeys bad
  cases h.symm.trans failed

/-- A scan that comes to keys finds them in the order of their positions. -/
theorem pairwise_position_of_scan {bundle : Bundle} {text : List Char}
    {found : List KeyOccurrence} (h : scan bundle text = .ok found) :
    (found.map (·.position)).Pairwise Position.Before := by
  obtain ⟨found', scanned, order, -⟩ := scan_of_allGiveKeys (allGiveKeys_of_scan h)
  cases h.symm.trans scanned
  exact order

/-- A scan that comes to keys found each of them at the place of a call. -/
theorem exists_place_of_mem_scan {bundle : Bundle} {text : List Char} {found : List KeyOccurrence}
    (h : scan bundle text = .ok found) {o : KeyOccurrence} (inside : o ∈ found) :
    ∃ before rest opened, text = before ++ rest ∧ OpensCall bundle rest opened ∧
      o.position = Position.after before ∧
      o.sourceLine = String.ofList (lineText text o.position.line) := by
  obtain ⟨found', scanned, -, mem⟩ := scan_of_allGiveKeys (allGiveKeys_of_scan h)
  cases h.symm.trans scanned
  obtain ⟨before, rest, opened, split, opens, -, -, place⟩ := (mem o).mp inside
  exact ⟨before, rest, opened, split, opens, place⟩

/-- The scan visits exactly the places where a call begins, each once and in order, and no place
begins calls of two bundles. If all calls give keys, the scan comes to the keys that name something,
in increasing order of their positions; otherwise it comes to what is wrong with the first call that
gives none, at the position of that call. -/
theorem scan_exact (bundle : Bundle) (text : List Char) :
    ((calls bundle text).Pairwise fun a b => b.text.length < a.text.length) ∧
    (∀ rest opened, (∃ call ∈ calls bundle text, call.text = rest ∧ call.opened = opened) ↔
      rest <:+ text ∧ OpensCall bundle rest opened) ∧
    (∀ other rest opened opened', OpensCall bundle rest opened → OpensCall other rest opened' →
      other = bundle) ∧
    (AllGiveKeys bundle text →
      ∃ found, scan bundle text = .ok found ∧ (found.map (·.position)).Pairwise Position.Before ∧
        ∀ o, o ∈ found ↔ ∃ before rest opened, text = before ++ rest ∧
          OpensCall bundle rest opened ∧ GivesKey opened o.key ∧ o.key.isBlank = false ∧
          o.position = Position.after before ∧
          o.sourceLine = String.ofList (lineText text o.position.line)) ∧
    (¬ AllGiveKeys bundle text →
      ∃ before rest opened cause, text = before ++ rest ∧ OpensCall bundle rest opened ∧
        Malformed rest opened cause ∧
        (∀ before' rest' opened', text = before' ++ rest' → before'.length < before.length →
          OpensCall bundle rest' opened' → ∃ key, GivesKey opened' key) ∧
        scan bundle text = .error ⟨Position.after before, cause⟩) := by
  refine ⟨calls_pairwise bundle text, fun rest opened => mem_calls_iff, ?_, scan_of_allGiveKeys,
    scan_of_not_allGiveKeys⟩
  intro other rest opened opened' h h'
  exact h'.bundle_unique h

end LocaleKeys.CallSite
