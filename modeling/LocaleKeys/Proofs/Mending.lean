import LocaleKeys.Collection
import LocaleKeys.Proofs.Comparison
import LocaleKeys.Proofs.Properties.KeyLine

/-!
# Putting a missing key into the base file

The hint of a missing key says to add its stored form to the base resource file. `Mends` is what a
line for the key in front of the file is to do. It does so exactly for `Storable` keys
(`keyLine_mends_iff`): for others the file is malformed or does not define the key on that line.
-/

namespace LocaleKeys

open Properties (Entry withKeyLine)
open Properties.Entry (firstOf? repetition? repetitions)

/-- The repeated definition when one line is put in front of the file. -/
def RepeatedKey.down (repeated : RepeatedKey) : RepeatedKey :=
  { repeated with line := repeated.line + 1, firstLine := repeated.firstLine + 1 }

/-- A file that does not define a key that is in use is mended: the key is defined on line 1 and no
longer missing, and everything else is as it was, one line further down. -/
structure Mends (used : UsedKeys) (defined : DefinedKeys) (key : Key) (mended : DefinedKeys) :
    Prop where
  lineOf?_eq : mended.lineOf? key.propertiesKey = some 1
  missing_eq : (Comparison.of used mended).missing =
    (Comparison.of used defined).missing.filter (·.first.key.propertiesKey ≠ key.propertiesKey)
  obsolete_eq : (Comparison.of used mended).obsolete = (Comparison.of used defined).obsolete
  repeated_eq : mended.repeated = defined.repeated.map RepeatedKey.down

/-! ## One line further down -/

theorem firstOf?_down (key : String) (entries : List Entry) :
    firstOf? key (entries.map Entry.down) = (firstOf? key entries).map Entry.down := by
  rw [firstOf?, List.find?_map]
  rfl

theorem repetition?_down {first entry : Entry} (h : entry.storedKey ≠ first.storedKey)
    (before : List Entry) :
    repetition? (first :: before.map Entry.down) entry.down =
      (repetition? before entry).map RepeatedKey.down := by
  have behind : firstOf? entry.storedKey (first :: before.map Entry.down) =
      (firstOf? entry.storedKey before).map Entry.down := by
    rw [← firstOf?_down, firstOf?, List.find?_cons_of_neg (by simpa using Ne.symm h)]
    rfl
  change (firstOf? entry.storedKey _).map _ = _
  rw [behind, repetition?, Option.map_map, Option.map_map]
  rfl

theorem repetitions_down {first : Entry} {entries : List Entry}
    (h : ∀ entry ∈ entries, entry.storedKey ≠ first.storedKey) (before : List Entry) :
    repetitions (first :: before.map Entry.down) (entries.map Entry.down) =
      (repetitions before entries).map RepeatedKey.down := by
  induction entries generalizing before with
  | nil => rfl
  | cons entry entries ih =>
    rw [List.forall_mem_cons] at h
    have tail := ih h.2 (before ++ [entry])
    rw [List.map_append] at tail
    rw [List.map_cons, repetitions, repetitions, repetition?_down h.1, List.map_append, ← tail]
    cases repetition? before entry <;> rfl

/-! ## The line for a key -/

theorem storedKey_underscored {key : Key} (h : key.Storable) (line : Nat) :
    (Entry.mk (Key.underscored key.text.toList) [] line).storedKey = key.propertiesKey := by
  have trimmed := h.trimmed
  rw [Key.toList_propertiesKey, Key.trim_escape_eq_self_iff] at trimmed
  rw [Entry.storedKey, Key.ofResource, trimmed, Key.propertiesKey, String.toList_ofList,
    Key.escape_underscored, Key.propertiesKey]

theorem exists_storedKey_cons_down {first : Entry} {entries : List Entry} {key : String} :
    (∃ entry ∈ first :: entries.map Entry.down, entry.storedKey = key) ↔
      first.storedKey = key ∨ ∃ entry ∈ entries, entry.storedKey = key := by
  rw [List.exists_mem_cons_iff]
  simp only [List.mem_map, exists_exists_and_eq_and]
  rfl

/-- A definition in front of a file that does not define its key yet mends it. -/
theorem mends_of_first {used : UsedKeys} {usages : List Usage} (asked : used.Describes usages)
    {path : String} {entries : List Entry} {missing : UsedKey}
    (reported : missing ∈ (Comparison.of used (.ofEntries path entries)).missing) {first : Entry}
    (line : first.line = 1) (stored : first.storedKey = missing.first.key.propertiesKey) :
    Mends used (.ofEntries path entries) missing.first.key
      (.ofEntries path (first :: entries.map Entry.down)) := by
  have before := DefinedKeys.describes_ofEntries path entries
  have after := DefinedKeys.describes_ofEntries path (first :: entries.map Entry.down)
  obtain ⟨listed, fresh⟩ := (Comparison.mem_missing_iff before).mp reported
  have inUse := (asked.identity_first (asked.mem_values_iff.mp listed)).1
  refine ⟨?_, ?_, ?_, ?_⟩
  · rw [after.lineOf?_eq, firstOf?, List.find?_cons_of_pos (by simp [stored]), ← line]
    rfl
  · have contains : ∀ key,
        (DefinedKeys.ofEntries path (first :: entries.map Entry.down)).contains key =
          (decide (key = missing.first.key.propertiesKey) ||
            (DefinedKeys.ofEntries path entries).contains key) := by
      intro key
      rw [Bool.eq_iff_iff, after.contains_iff, exists_storedKey_cons_down, Bool.or_eq_true,
        before.contains_iff, stored, decide_eq_true_iff, eq_comm]
    simp only [Comparison.of, List.filter_filter]
    apply List.filter_congr
    intro key _
    rw [contains, Bool.not_or, decide_not]
  · refine SortedMap.keys_eq_of_mem_iff (Comparison.obsolete_sorted after)
      (Comparison.obsolete_sorted before) fun key => ?_
    rw [Comparison.mem_obsolete_iff asked after, Comparison.mem_obsolete_iff asked before,
      exists_storedKey_cons_down]
    refine and_congr_left fun unused => or_iff_right ?_
    rw [stored]
    exact unused missing.first inUse
  · rw [after.repeated_eq, before.repeated_eq, repetitions, repetition?]
    have others : ∀ entry ∈ entries, entry.storedKey ≠ first.storedKey := by rwa [stored]
    exact repetitions_down others []

/-- Following the hint of a missing key, with a line for the key in front of the base resource file,
mends the file exactly if that can hold the stored form of the key as it is. -/
theorem keyLine_mends_iff {file path : String} {bundle : Bundle} {text base : List Char}
    {used : UsedKeys} {defined : DefinedKeys} {missing : UsedKey}
    (scanned : (sourceUsages file bundle text).map (UsedKeys.insertAll .empty) = .ok used)
    (parsed : DefinedKeys.parse path base = .ok defined)
    (reported : missing ∈ (Comparison.of used defined).missing) :
    (∃ mended, DefinedKeys.parse path (withKeyLine missing.first.key base) = .ok mended ∧
      Mends used defined missing.first.key mended) ↔ missing.first.key.Storable := by
  have asked : ∃ usages, used.Describes usages := by
    cases found : sourceUsages file bundle text with
    | error e =>
      rw [found] at scanned
      cases scanned
    | ok usages =>
      rw [found] at scanned
      cases scanned
      exact ⟨usages, UsedKeys.describes_insertAll usages⟩
  obtain ⟨usages, asked⟩ := asked
  obtain ⟨entries, read, rfl⟩ := DefinedKeys.exists_parse parsed
  constructor
  · rintro ⟨mended, parsed', mends⟩
    obtain ⟨entries', read', rfl⟩ := DefinedKeys.exists_parse parsed'
    have line := mends.lineOf?_eq
    rw [(DefinedKeys.describes_ofEntries path entries').lineOf?_eq, Option.map_eq_some_iff] at line
    obtain ⟨entry, found, first⟩ := line
    obtain ⟨inside, stored⟩ := Properties.Entry.storedKey_of_firstOf? found
    exact Properties.storable_of_parse_withKeyLine read' inside first stored
  · intro storable
    refine ⟨_, ?_, mends_of_first asked reported rfl (storedKey_underscored storable 1)⟩
    rw [DefinedKeys.parse, Properties.parse_withKeyLine storable read]
    rfl

/-- A key with a separator and a space. -/
def openKey : UsedKey :=
  ⟨⟨⟨"A.java", .start⟩, ⟨"Open: %0"⟩, .lang, some "Localization.lang(\"Open: %0\")"⟩, []⟩

theorem keyLine_mends_openKey :
    ∃ mended, DefinedKeys.parse "l10n.properties"
        (withKeyLine openKey.first.key "Close=x\n".toList) = .ok mended ∧
      Mends ⟨[(openKey.first.identity, openKey)]⟩ ⟨"l10n.properties", ⟨[("Close", 1)]⟩, []⟩
        openKey.first.key mended := by
  have scanned : (sourceUsages "A.java" .lang "Localization.lang(\"Open: %0\")".toList).map
      (UsedKeys.insertAll .empty) = .ok ⟨[(openKey.first.identity, openKey)]⟩ := by decide
  have parsed : DefinedKeys.parse "l10n.properties" "Close=x\n".toList =
      .ok ⟨"l10n.properties", ⟨[("Close", 1)]⟩, []⟩ := by decide
  have storable : openKey.first.key.Storable := by
    refine ⟨by decide, ?_, ?_, by decide⟩
    all_goals
      simp only [List.forall_mem_cons, List.not_mem_nil, false_imp_iff, implies_true, and_true]
      decide
  exact (keyLine_mends_iff scanned parsed (by decide)).mpr storable

/-- A key that opens a comment. -/
def choiceKey : UsedKey :=
  ⟨⟨⟨"A.java", .start⟩, ⟨"#1 choice"⟩, .lang, some "Localization.lang(\"#1 choice\")"⟩, []⟩

/-- The line for a key that opens a comment defines nothing. -/
theorem keyLine_of_choiceKey :
    (sourceUsages "A.java" .lang "Localization.lang(\"#1 choice\")".toList).map
        (UsedKeys.insertAll .empty) = .ok ⟨[(choiceKey.first.identity, choiceKey)]⟩ ∧
      DefinedKeys.parse "l10n.properties" [] = .ok (.empty "l10n.properties") ∧
      choiceKey ∈ (Comparison.of ⟨[(choiceKey.first.identity, choiceKey)]⟩
        (.empty "l10n.properties")).missing ∧
      ¬ ∃ mended, DefinedKeys.parse "l10n.properties" (withKeyLine choiceKey.first.key []) =
          .ok mended ∧
        Mends ⟨[(choiceKey.first.identity, choiceKey)]⟩ (.empty "l10n.properties")
          choiceKey.first.key mended := by
  refine ⟨by decide, by decide, by decide, ?_⟩
  rintro ⟨mended, parsed, mends⟩
  have nothing : DefinedKeys.parse "l10n.properties" (withKeyLine choiceKey.first.key []) =
      .ok (.empty "l10n.properties") := by decide
  rw [nothing] at parsed
  cases parsed
  exact absurd mends.lineOf?_eq (by decide)

end LocaleKeys
