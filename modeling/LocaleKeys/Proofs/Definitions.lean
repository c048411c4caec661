import LocaleKeys.Proofs.Comparison
import LocaleKeys.Proofs.Properties.KeyLine

/-!
# Every definition is loaded once

A definition of a file either counts for its key or repeats the one that counts. The later definitions
of the keys (`Entry.later`) are recorded one by one (`forall₂_repetitions`), and each definition adds
either a key or a repetition (`size_define`). So what is loaded from a file holds every definition of
it once (`DefinedKeys.parse_loads`).
-/

namespace LocaleKeys

open Properties (Entry)
open Properties.Entry (firstOf? repetition? repetitions)

namespace Properties.Entry

/-- The definitions whose key an earlier one defines, in order. -/
def later (entries : List Entry) : List Entry :=
  (entries.zipIdx.filter fun item =>
    (entries.take item.2).any (·.storedKey == item.1.storedKey)).map (·.1)

theorem later_concat (entries : List Entry) (entry : Entry) :
    later (entries ++ [entry]) =
      later entries ++ if (firstOf? entry.storedKey entries).isSome then [entry] else [] := by
  have before : entries.zipIdx.filter (fun item =>
        ((entries ++ [entry]).take item.2).any (·.storedKey == item.1.storedKey)) =
      entries.zipIdx.filter fun item =>
        (entries.take item.2).any (·.storedKey == item.1.storedKey) := by
    refine List.filter_congr fun item inside => ?_
    have bound : item.2 < entries.length := by simpa using List.snd_lt_of_mem_zipIdx inside
    rw [List.take_append_of_le_length (Nat.le_of_lt bound)]
  have known : entries.any (·.storedKey == entry.storedKey) =
      (firstOf? entry.storedKey entries).isSome := by
    rw [Bool.eq_iff_iff, List.any_eq_true, firstOf?, List.find?_isSome]
  rw [later, List.zipIdx_append, List.filter_append, before, List.map_append, ← later,
    List.zipIdx_singleton, Nat.zero_add, List.filter_singleton, List.take_left, known]
  cases (firstOf? entry.storedKey entries).isSome <;> rfl

/-- The repetition records a later definition of a key that these definitions define. -/
structure Records (entries : List Entry) (repetition : RepeatedKey) (entry : Entry) : Prop where
  key_eq : repetition.key = entry.storedKey
  line_eq : repetition.line = entry.line
  firstLine_eq : (firstOf? entry.storedKey entries).map (·.line) = some repetition.firstLine
  behind : repetition.firstLine < repetition.line

theorem Records.concat {entries : List Entry} {repetition : RepeatedKey} {entry : Entry}
    (h : Records entries repetition entry) (further : Entry) :
    Records (entries ++ [further]) repetition entry where
  key_eq := h.key_eq
  line_eq := h.line_eq
  firstLine_eq := by
    obtain ⟨first, found, line⟩ := Option.map_eq_some_iff.mp h.firstLine_eq
    rw [firstOf?_concat, found, Option.some_or, Option.map_some, line]
  behind := h.behind

/-- The repetitions are those of the later definitions. -/
theorem forall₂_repetitions {entries : List Entry} (order : entries.Pairwise (·.line < ·.line)) :
    List.Forall₂ (Records entries) (repetitions [] entries) (later entries) := by
  induction entries using List.reverseRec with
  | nil => exact .nil
  | append_singleton entries entry ih =>
    obtain ⟨before, -, behind⟩ := List.pairwise_append.mp order
    rw [repetitions_concat, List.nil_append, later_concat, repetition?]
    refine List.rel_append ((ih before).imp fun _ _ h => h.concat entry) ?_
    cases found : firstOf? entry.storedKey entries with
    | none => exact .nil
    | some first =>
      refine .cons ⟨rfl, rfl, ?_, ?_⟩ .nil
      · rw [firstOf?_concat, found]
        rfl
      · exact behind first (storedKey_of_firstOf? found).1 entry (List.mem_singleton_self _)

end Properties.Entry

namespace DefinedKeys

theorem size_define (defined : DefinedKeys) (entry : Entry) :
    (defined.define entry).lines.size + (defined.define entry).repeated.length =
      defined.lines.size + defined.repeated.length + 1 := by
  cases known : defined.lineOf? entry.storedKey with
  | some line =>
    rw [define_known known]
    simp only [List.length_append, List.length_singleton]
    omega
  | none =>
    rw [define_new known]
    simp only [SortedMap.size_upsert_of_find?_eq_none known]
    omega

theorem size_ofEntries (file : String) (entries : List Entry) :
    (ofEntries file entries).lines.size + (ofEntries file entries).repeated.length =
      entries.length := by
  induction entries using List.reverseRec with
  | nil => rfl
  | append_singleton entries entry ih =>
    rw [List.length_append, List.length_singleton, ← ih, ofEntries, List.foldl_append]
    exact size_define _ entry

/-- The keys are those of the definitions, in the order of their characters and each on the line of
its first definition. Every definition that is not the first of its key is a repetition of the one
that counts. -/
structure Loads (defined : DefinedKeys) (entries : List Entry) : Prop where
  increasing : defined.lines.keys.Pairwise (· < ·)
  mem_keys_iff : ∀ key, key ∈ defined.lines.keys ↔ ∃ entry ∈ entries, entry.storedKey = key
  lineOf?_eq : ∀ key, defined.lineOf? key = (firstOf? key entries).map (·.line)
  repeated : List.Forall₂ (fun repetition entry =>
      repetition.key = entry.storedKey ∧ repetition.line = entry.line ∧
        defined.lineOf? entry.storedKey = some repetition.firstLine ∧
        repetition.firstLine < repetition.line)
    defined.repeated (Properties.Entry.later entries)
  size_eq : defined.lines.size + defined.repeated.length = entries.length

/-- The keys of a file that can be read hold every definition of it once. -/
theorem parse_loads {text : List Char} {entries : List Entry}
    (read : Properties.parse text = .ok entries) (file : String) :
    ∃ defined, DefinedKeys.parse file text = .ok defined ∧ defined.file = file ∧
      defined.Loads entries := by
  have describes := describes_ofEntries file entries
  refine ⟨ofEntries file entries, by rw [DefinedKeys.parse, read]; rfl, describes.file_eq, ?_, ?_,
    describes.lineOf?_eq, ?_, size_ofEntries file entries⟩
  · exact describes.sorted.imp compareOfLessAndEq_eq_lt.mp
  · intro key
    rw [SortedMap.mem_keys_iff describes.sorted]
    exact describes.contains_iff
  · have order := Properties.pairwise_line_of_parse read
    rw [describes.repeated_eq]
    refine (Properties.Entry.forall₂_repetitions order).imp fun repetition entry records => ?_
    refine ⟨records.key_eq, records.line_eq, ?_, records.behind⟩
    rw [describes.lineOf?_eq, records.firstLine_eq]

/-- Four definitions of two keys, one of which is spelled with a space, with an underscore and across
two lines. -/
theorem parse_loads_spaced :
    let text := "Save\\ all=1\n Save_all : 2\nb\nSave\\\n_all=3\n".toList
    let entries : List Entry := [⟨"Save all".toList, ['1'], 1⟩, ⟨"Save_all".toList, ['2'], 2⟩,
      ⟨['b'], [], 3⟩, ⟨"Save_all".toList, ['3'], 4⟩]
    Properties.parse text = .ok entries ∧
      ∃ defined, DefinedKeys.parse "l10n.properties" text = .ok defined ∧
        defined.file = "l10n.properties" ∧ defined.Loads entries := by
  intro text entries
  have read : Properties.parse text = .ok entries := by decide
  exact ⟨read, parse_loads read "l10n.properties"⟩

end DefinedKeys

end LocaleKeys
