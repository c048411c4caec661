import LocaleKeys.Collection
import LocaleKeys.Proofs.UsedKeys

/-!
# What is collected from files

Every file adds its usages, its malformed call site or its reason to be left out to the collection,
and nothing else (`Collection.Describes.add`), and all of this names the file (`FileOutcome.Names`).
So the usages collected for a bundle are those of the files that are read without a fault
(`flatMap_usagesOf`, `exists_usage_iff`), the failures those of the source files with a malformed call
(`filterMap_failure?`), and the files left out those that cannot be read or evaluated
(`filterMap_skipped?`).
-/

namespace LocaleKeys

namespace FileOutcome

/-- The usages that come out of a file. -/
def usagesOf : FileOutcome → List Usage
  | .usages found => found
  | .failed _ => []
  | .skipped _ => []

/-- The malformed call site that comes out of a file. -/
def failure? : FileOutcome → Option FileExtractionError
  | .failed failure => some failure
  | _ => none

/-- The reason to leave a file out that comes out of it. -/
def skipped? : FileOutcome → Option SkippedFile
  | .skipped file => some file
  | _ => none

/-- All that comes out of a file names it. -/
structure Names (outcome : FileOutcome) (file : String) : Prop where
  usages : ∀ usage ∈ outcome.usagesOf, usage.location.file = file
  failure : ∀ failure ∈ outcome.failure?.toList, failure.file = file
  skipped : ∀ skipped ∈ outcome.skipped?.toList, skipped.file = file

theorem names_ofSource (tree : FileTree) (bundle : Bundle) (path : Path) :
    (ofSource tree bundle path).Names path.toText := by
  rw [ofSource]
  cases tree.read path with
  | error e => exact ⟨nofun, nofun, by simp [skipped?]⟩
  | ok text =>
    simp only [sourceUsages]
    cases CallSite.scan bundle text with
    | error e => exact ⟨nofun, by simp [failure?, Except.map], nofun⟩
    | ok occurrences => exact ⟨by simp [usagesOf, Except.map], nofun, nofun⟩

theorem names_ofMarkup (tree : FileTree) (bundle : Bundle) (evaluator : Markup.Evaluator)
    (path : Path) : (ofMarkup tree bundle evaluator path).Names path.toText := by
  rw [ofMarkup]
  cases tree.read path with
  | error e => exact ⟨nofun, nofun, by simp [skipped?]⟩
  | ok text =>
    simp only
    cases Markup.collectKeys evaluator text with
    | error e => exact ⟨nofun, nofun, by simp [skipped?]⟩
    | ok keys => exact ⟨by simp [usagesOf, markupUsages, Location.ofFile], nofun, nofun⟩

end FileOutcome

namespace Collection

/-- The collection is put together from what comes out of files. -/
structure Describes (collection : Collection) (outcomes : List FileOutcome) : Prop where
  used : collection.used.Describes (outcomes.flatMap FileOutcome.usagesOf)
  failures_eq : collection.failures = outcomes.filterMap FileOutcome.failure?
  skipped_eq : collection.skipped = outcomes.filterMap FileOutcome.skipped?

theorem describes_empty : empty.Describes [] :=
  ⟨UsedKeys.describes_empty, rfl, rfl⟩

/-- A file adds what comes out of it. -/
theorem Describes.add {collection : Collection} {outcomes : List FileOutcome}
    (h : collection.Describes outcomes) (outcome : FileOutcome) :
    (collection.add outcome).Describes (outcomes ++ [outcome]) := by
  cases outcome with
  | usages usages =>
    refine ⟨?_, ?_, ?_⟩
    · rw [List.flatMap_append]
      simpa [Collection.add, FileOutcome.usagesOf] using h.used.insertAll usages
    · simpa [Collection.add, List.filterMap_cons, FileOutcome.failure?] using h.failures_eq
    · simpa [Collection.add, List.filterMap_cons, FileOutcome.skipped?] using h.skipped_eq
  | failed failure =>
    refine ⟨?_, ?_, ?_⟩
    · simpa [Collection.add, FileOutcome.usagesOf] using h.used
    · simp [Collection.add, FileOutcome.failure?, h.failures_eq]
    · simpa [Collection.add, List.filterMap_cons, FileOutcome.skipped?] using h.skipped_eq
  | skipped file =>
    refine ⟨?_, ?_, ?_⟩
    · simpa [Collection.add, FileOutcome.usagesOf] using h.used
    · simpa [Collection.add, List.filterMap_cons, FileOutcome.failure?] using h.failures_eq
    · simp [Collection.add, FileOutcome.skipped?, h.skipped_eq]

theorem describes_foldl_add (outcomes : List FileOutcome) :
    (outcomes.foldl add empty).Describes outcomes := by
  induction outcomes using List.reverseRec with
  | nil => exact describes_empty
  | append_singleton outcomes outcome ih =>
    rw [List.foldl_append]
    exact ih.add outcome

/-! ## Files of a bundle -/

variable {tree : FileTree} {bundle : Bundle} {evaluator : Markup.Evaluator}
  {sources markup : List Path}

/-- The call site that makes a source file fail. -/
def failureIn? (tree : FileTree) (bundle : Bundle) (path : Path) : Option FileExtractionError :=
  match tree.read path with
  | .error _ => none
  | .ok text =>
    match CallSite.scan bundle text with
    | .error error => some ⟨path.toText, error⟩
    | .ok _ => none

/-- The reason to leave a source file out, whatever the bundle. -/
def skippedSource? (tree : FileTree) (path : Path) : Option SkippedFile :=
  match tree.read path with
  | .error error => some ⟨path.toText, .unreadable error⟩
  | .ok _ => none

/-- The reason to leave a markup file out. -/
def skippedMarkup? (tree : FileTree) (evaluator : Markup.Evaluator) (path : Path) :
    Option SkippedFile :=
  match tree.read path with
  | .error error => some ⟨path.toText, .unreadable error⟩
  | .ok text =>
    match Markup.collectKeys evaluator text with
    | .error message => some ⟨path.toText, .unevaluated message⟩
    | .ok _ => none

/-- The usage at a call site of a file. -/
def usageAt (file : String) (bundle : Bundle) (occurrence : KeyOccurrence) : Usage :=
  ⟨⟨file, occurrence.position⟩, occurrence.key, bundle, some occurrence.sourceLine⟩

/-- The usages at the call sites of a source file; there are none if one of them is malformed. -/
def callsIn (tree : FileTree) (bundle : Bundle) (path : Path) : List Usage :=
  match tree.read path with
  | .error _ => []
  | .ok text =>
    match CallSite.scan bundle text with
    | .error _ => []
    | .ok occurrences => occurrences.map (usageAt path.toText bundle)

/-- The usages in a markup file; there are none if it cannot be evaluated to its end. -/
def referencesIn (tree : FileTree) (bundle : Bundle) (evaluator : Markup.Evaluator) (path : Path) :
    List Usage :=
  match tree.read path with
  | .error _ => []
  | .ok text =>
    match Markup.collectKeys evaluator text with
    | .error _ => []
    | .ok keys => markupUsages path.toText bundle keys

/-- A file that is read without a fault uses the key. -/
inductive Uses (tree : FileTree) (bundle : Bundle) (evaluator : Markup.Evaluator)
    (sources markup : List Path) (key : String) : Prop where
  | call {path : Path} {text : List Char} {occurrences : List KeyOccurrence}
      {occurrence : KeyOccurrence} (selected : path ∈ sources) (read : tree.read path = .ok text)
      (scanned : CallSite.scan bundle text = .ok occurrences) (found : occurrence ∈ occurrences)
      (same : occurrence.key.propertiesKey = key)
  | reference {path : Path} {text : List Char} {keys : List Key} {found : Key}
      (reads : bundle.readsMarkup = true) (selected : path ∈ markup)
      (read : tree.read path = .ok text) (evaluated : Markup.collectKeys evaluator text = .ok keys)
      (inside : found ∈ keys) (same : found.propertiesKey = key)

theorem failure?_ofSource (path : Path) :
    (FileOutcome.ofSource tree bundle path).failure? = failureIn? tree bundle path := by
  rw [FileOutcome.ofSource, failureIn?]
  cases tree.read path with
  | error e => rfl
  | ok text =>
    simp only [sourceUsages]
    cases CallSite.scan bundle text <;> rfl

theorem file_of_failureIn? {path : Path} {failure : FileExtractionError}
    (h : failureIn? tree bundle path = some failure) : failure.file = path.toText := by
  have failed : (FileOutcome.ofSource tree bundle path).failure? = some failure :=
    (failure?_ofSource path).trans h
  exact (FileOutcome.names_ofSource tree bundle path).failure failure (by simp [failed])

theorem failure?_ofMarkup (path : Path) :
    (FileOutcome.ofMarkup tree bundle evaluator path).failure? = none := by
  rw [FileOutcome.ofMarkup]
  cases tree.read path with
  | error e => rfl
  | ok text =>
    simp only
    cases Markup.collectKeys evaluator text <;> rfl

theorem usagesOf_ofSource (path : Path) :
    (FileOutcome.ofSource tree bundle path).usagesOf = callsIn tree bundle path := by
  rw [FileOutcome.ofSource, callsIn]
  cases tree.read path with
  | error e => rfl
  | ok text =>
    simp only [sourceUsages]
    cases CallSite.scan bundle text <;> rfl

theorem usagesOf_ofMarkup (path : Path) :
    (FileOutcome.ofMarkup tree bundle evaluator path).usagesOf =
      referencesIn tree bundle evaluator path := by
  rw [FileOutcome.ofMarkup, referencesIn]
  cases tree.read path with
  | error e => rfl
  | ok text =>
    simp only
    cases Markup.collectKeys evaluator text <;> rfl

theorem skipped?_ofSource (path : Path) :
    (FileOutcome.ofSource tree bundle path).skipped? = skippedSource? tree path := by
  rw [FileOutcome.ofSource, skippedSource?]
  cases tree.read path with
  | error e => rfl
  | ok text =>
    simp only [sourceUsages]
    cases CallSite.scan bundle text <;> rfl

theorem skipped?_ofMarkup (path : Path) :
    (FileOutcome.ofMarkup tree bundle evaluator path).skipped? =
      skippedMarkup? tree evaluator path := by
  rw [FileOutcome.ofMarkup, skippedMarkup?]
  cases tree.read path with
  | error e => rfl
  | ok text =>
    simp only
    cases Markup.collectKeys evaluator text <;> rfl

theorem mem_usagesOf_ofSource {path : Path} {usage : Usage} :
    usage ∈ (FileOutcome.ofSource tree bundle path).usagesOf ↔
      ∃ text occurrences, tree.read path = .ok text ∧ CallSite.scan bundle text = .ok occurrences ∧
        ∃ occurrence ∈ occurrences, usage = ⟨⟨path.toText, occurrence.position⟩, occurrence.key,
          bundle, some occurrence.sourceLine⟩ := by
  rw [FileOutcome.ofSource]
  cases tree.read path with
  | error e => simp [FileOutcome.usagesOf]
  | ok text =>
    simp only [sourceUsages]
    cases scanned : CallSite.scan bundle text with
    | error e => simp [FileOutcome.usagesOf, Except.map, scanned]
    | ok occurrences => simp [FileOutcome.usagesOf, Except.map, scanned, eq_comm]

theorem mem_usagesOf_ofMarkup {path : Path} {usage : Usage} :
    usage ∈ (FileOutcome.ofMarkup tree bundle evaluator path).usagesOf ↔
      ∃ text keys, tree.read path = .ok text ∧ Markup.collectKeys evaluator text = .ok keys ∧
        ∃ key ∈ keys, usage = ⟨.ofFile path.toText, key, bundle, none⟩ := by
  rw [FileOutcome.ofMarkup]
  cases tree.read path with
  | error e => simp [FileOutcome.usagesOf]
  | ok text =>
    simp only
    cases evaluated : Markup.collectKeys evaluator text with
    | error e => simp [FileOutcome.usagesOf, evaluated]
    | ok keys => simp [FileOutcome.usagesOf, markupUsages, evaluated, eq_comm]

/-- A usage comes out of a source file or a markup file. -/
theorem mem_usages_iff {usage : Usage} :
    usage ∈ (outcomes tree bundle evaluator sources markup).flatMap FileOutcome.usagesOf ↔
      (∃ path ∈ sources, usage ∈ (FileOutcome.ofSource tree bundle path).usagesOf) ∨
        (bundle.readsMarkup = true ∧
          ∃ path ∈ markup, usage ∈ (FileOutcome.ofMarkup tree bundle evaluator path).usagesOf) := by
  rw [outcomes, List.flatMap_append, List.mem_append]
  apply or_congr
  · simp only [List.mem_flatMap, List.mem_map, exists_exists_and_eq_and]
  · cases bundle.readsMarkup with
    | true =>
      simp only [List.mem_flatMap, List.mem_map, exists_exists_and_eq_and, if_true, true_and]
    | false => simp

/-- The usages collected for a bundle are those of the bundle. -/
theorem bundle_of_mem_usages {usage : Usage}
    (h : usage ∈ (outcomes tree bundle evaluator sources markup).flatMap FileOutcome.usagesOf) :
    usage.bundle = bundle := by
  rcases mem_usages_iff.mp h with ⟨path, _, inside⟩ | ⟨_, path, _, inside⟩
  · obtain ⟨_, _, _, _, occurrence, _, rfl⟩ := mem_usagesOf_ofSource.mp inside
    rfl
  · obtain ⟨_, _, _, _, key, _, rfl⟩ := mem_usagesOf_ofMarkup.mp inside
    rfl

/-- The keys that usages are collected for are those that some file uses. -/
theorem exists_usage_iff {key : String} :
    (∃ usage ∈ (outcomes tree bundle evaluator sources markup).flatMap FileOutcome.usagesOf,
      usage.key.propertiesKey = key) ↔ Uses tree bundle evaluator sources markup key := by
  constructor
  · rintro ⟨usage, inside, same⟩
    rcases mem_usages_iff.mp inside with ⟨path, selected, inside⟩ | ⟨reads, path, selected, inside⟩
    · obtain ⟨text, occurrences, read, scanned, occurrence, found, rfl⟩ :=
        mem_usagesOf_ofSource.mp inside
      exact .call selected read scanned found same
    · obtain ⟨text, keys, read, evaluated, found, listed, rfl⟩ := mem_usagesOf_ofMarkup.mp inside
      exact .reference reads selected read evaluated listed same
  · rintro (⟨selected, read, scanned, found, same⟩ |
      ⟨reads, selected, read, evaluated, inside, same⟩)
    · have used := mem_usagesOf_ofSource.mpr ⟨_, _, read, scanned, _, found, rfl⟩
      exact ⟨_, mem_usages_iff.mpr (.inl ⟨_, selected, used⟩), same⟩
    · have used :=
        (@mem_usagesOf_ofMarkup _ bundle _ _ _).mpr ⟨_, _, read, evaluated, _, inside, rfl⟩
      exact ⟨_, mem_usages_iff.mpr (.inr ⟨reads, _, selected, used⟩), same⟩

/-- What comes out of the files of a bundle comes out of its source files or, if the bundle reads
markup, of its markup files. -/
theorem flatMap_outcomes {α : Type} (part : FileOutcome → List α) :
    (outcomes tree bundle evaluator sources markup).flatMap part =
      sources.flatMap (fun path => part (.ofSource tree bundle path)) ++
        if bundle.readsMarkup then
          markup.flatMap fun path => part (.ofMarkup tree bundle evaluator path)
        else [] := by
  rw [outcomes, List.flatMap_append, List.flatMap_map]
  split
  · rw [List.flatMap_map]
  · rw [List.flatMap_nil]

theorem flatMap_usagesOf :
    (outcomes tree bundle evaluator sources markup).flatMap FileOutcome.usagesOf =
      sources.flatMap (callsIn tree bundle) ++
        if bundle.readsMarkup then markup.flatMap (referencesIn tree bundle evaluator) else [] := by
  simp only [flatMap_outcomes, usagesOf_ofSource, usagesOf_ofMarkup]

/-- The failures of a bundle are those of the source files, in order. -/
theorem filterMap_failure? :
    (outcomes tree bundle evaluator sources markup).filterMap FileOutcome.failure? =
      sources.filterMap (failureIn? tree bundle) := by
  simp [List.filterMap_eq_flatMap_toList, flatMap_outcomes, failure?_ofSource, failure?_ofMarkup]

theorem filterMap_skipped? :
    (outcomes tree bundle evaluator sources markup).filterMap FileOutcome.skipped? =
      sources.filterMap (skippedSource? tree) ++
        if bundle.readsMarkup then markup.filterMap (skippedMarkup? tree evaluator) else [] := by
  simp only [List.filterMap_eq_flatMap_toList, flatMap_outcomes, skipped?_ofSource,
    skipped?_ofMarkup]

end Collection

end LocaleKeys
