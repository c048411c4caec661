import LocaleKeys.Proofs.Bytes
import LocaleKeys.Proofs.CallSite.Scan
import LocaleKeys.Proofs.Collection
import LocaleKeys.Proofs.Markup.Lookup
import LocaleKeys.Proofs.Sorting

/-!
# Every file is accounted for once

`Collection.Owes` says what a collection holds of a file. Of a source file it holds all usages, one
malformed call site or one reason to leave the file out, and nothing else
(`Collection.AccountsForSource`); of a markup file the same, except that no call site is malformed
(`Collection.AccountsForMarkup`). Each key is located at its call sites first, in the order of the
bytes of their files and of their places in them, and then in the markup files that refer to it
(`Collection.ofFiles_accounts`).
-/

namespace LocaleKeys

open Markup (Evaluation Evaluator)

/-- The location lies before another one: in a file whose name has smaller bytes, or in the same file
before the other. -/
def Location.Before (a b : Location) : Prop :=
  Text.bytes a.file < Text.bytes b.file ∨ (a.file = b.file ∧ a.position.Before b.position)

/-! ## Classes of files -/

namespace Collection

/-- What a collection holds of a file: the locations of its usages key by key, its malformed call
sites and the reasons to leave it out. -/
structure Owes (collection : Collection) (file : String) (usages : List Usage)
    (failures : List FileExtractionError) (skipped : List SkippedFile) : Prop where
  locations_eq : ∀ identity, (collection.used.locations identity).filter (·.file = file) =
    (usages.filter (·.identity = identity)).map (·.location)
  failures_eq : collection.failures.filter (·.file = file) = failures
  skipped_eq : collection.skipped.filter (·.file = file) = skipped

/-- How a file is accounted for. -/
inductive FileClass where
  /-- All usages in the file are collected. -/
  | merged
  /-- The file counts as one malformed call site. -/
  | failed
  /-- The file is left out. -/
  | skipped
deriving DecidableEq

/-- The class of a source file. No usage in a file with a malformed call site counts, not even one of
a call before it. -/
inductive AccountsForSource (collection : Collection) (tree : FileTree) (bundle : Bundle)
    (path : Path) : FileClass → Prop where
  | merged {text : List Char} {occurrences : List KeyOccurrence} (read : tree.read path = .ok text)
      (scanned : CallSite.scan bundle text = .ok occurrences)
      (owes : collection.Owes path.toText (occurrences.map (usageAt path.toText bundle)) [] []) :
      AccountsForSource collection tree bundle path .merged
  | failed {text : List Char} {error : ExtractionError} (read : tree.read path = .ok text)
      (malformed : CallSite.scan bundle text = .error error)
      (owes : collection.Owes path.toText [] [⟨path.toText, error⟩] []) :
      AccountsForSource collection tree bundle path .failed
  | unreadable {error : ReadError} (unread : tree.read path = .error error)
      (owes : collection.Owes path.toText [] [] [⟨path.toText, .unreadable error⟩]) :
      AccountsForSource collection tree bundle path .skipped

/-- The class of a markup file of a bundle that reads markup. No key that is asked for counts if the
evaluation fails afterwards. -/
inductive AccountsForMarkup (collection : Collection) (tree : FileTree) (bundle : Bundle)
    (evaluation : List Char → Evaluation) (path : Path) : FileClass → Prop where
  | merged {text : List Char} (read : tree.read path = .ok text)
      (finished : (evaluation text).failure? = none)
      (owes : collection.Owes path.toText
        (markupUsages path.toText bundle (evaluation text).keys) [] []) :
      AccountsForMarkup collection tree bundle evaluation path .merged
  | unevaluated {text : List Char} {message : String} (read : tree.read path = .ok text)
      (failed : (evaluation text).failure? = some message)
      (owes : collection.Owes path.toText [] [] [⟨path.toText, .unevaluated message⟩]) :
      AccountsForMarkup collection tree bundle evaluation path .skipped
  | unreadable {error : ReadError} (unread : tree.read path = .error error)
      (owes : collection.Owes path.toText [] [] [⟨path.toText, .unreadable error⟩]) :
      AccountsForMarkup collection tree bundle evaluation path .skipped

end Collection

/-! ## The files that are read for a bundle -/

namespace Collection

/-- The files that are read for a bundle, each with what comes out of it. -/
def readings (tree : FileTree) (bundle : Bundle) (evaluator : Evaluator) (files : SelectedFiles) :
    List (Path × FileOutcome) :=
  files.sources.map (fun path => (path, FileOutcome.ofSource tree bundle path))
    ++ if bundle.readsMarkup then
        files.markup.map fun path => (path, FileOutcome.ofMarkup tree bundle evaluator path)
      else []

variable {tree : FileTree} {bundle : Bundle} {evaluator : Evaluator} {files : SelectedFiles}

theorem map_snd_readings :
    (readings tree bundle evaluator files).map (·.2) =
      outcomes tree bundle evaluator files.sources files.markup := by
  rw [readings, outcomes, List.map_append, List.map_map]
  congr 1
  split
  · rw [List.map_map]
    rfl
  · rfl

theorem names_of_mem_readings {reading : Path × FileOutcome}
    (h : reading ∈ readings tree bundle evaluator files) :
    reading.2.Names reading.1.toText := by
  rcases List.mem_append.mp h with h | h
  · obtain ⟨path, -, rfl⟩ := List.mem_map.mp h
    exact FileOutcome.names_ofSource tree bundle path
  · split at h
    · obtain ⟨path, -, rfl⟩ := List.mem_map.mp h
      exact FileOutcome.names_ofMarkup tree bundle evaluator path
    · cases h

/-- The selected files have different names. -/
theorem nodup_readings (selection : Selection) :
    ((readings tree bundle evaluator (selection.select tree)).map (·.1.toText)).Nodup := by
  have injective : Function.Injective Path.toText := fun _ _ => Path.toText_injective
  have nodup : ∀ paths, ((Path.sorted paths).map Path.toText).Nodup := fun paths =>
    (Path.nodup_sorted paths).map injective
  rw [readings, List.map_append, List.map_map]
  split
  · rw [List.map_map]
    refine (nodup _).append (nodup _) fun name source markup => ?_
    obtain ⟨path, inside, rfl⟩ := List.mem_map.mp source
    obtain ⟨path', inside', same⟩ := List.mem_map.mp markup
    obtain rfl := Path.toText_injective same
    exact Selection.not_mem_markup inside inside'
  · rw [List.map_nil, List.append_nil]
    exact nodup _

theorem mem_names_iff {file : String} :
    file ∈ (readings tree bundle evaluator files).map (·.1.toText) ↔
      (∃ path ∈ files.sources, path.toText = file) ∨
        (bundle.readsMarkup = true ∧ ∃ path ∈ files.markup, path.toText = file) := by
  rw [readings, List.map_append, List.mem_append, List.map_map, List.mem_map]
  cases bundle.readsMarkup with
  | true => simp
  | false => simp

/-! ## What a collection holds of a file -/

theorem owes_of_describes {collection : Collection} {outcomes : List FileOutcome}
    (h : collection.Describes outcomes) (file : String) :
    collection.Owes file ((outcomes.flatMap FileOutcome.usagesOf).filter (·.location.file = file))
      ((outcomes.flatMap fun outcome => outcome.failure?.toList).filter (·.file = file))
      ((outcomes.flatMap fun outcome => outcome.skipped?.toList).filter (·.file = file)) := by
  refine ⟨fun identity => ?_, ?_, ?_⟩
  · rw [h.used.locations_eq, List.filter_map, List.filter_comm]
    rfl
  · rw [h.failures_eq, List.filterMap_eq_flatMap_toList]
  · rw [h.skipped_eq, List.filterMap_eq_flatMap_toList]

theorem owes_ofFiles (file : String) :
    (ofFiles tree bundle evaluator files.sources files.markup).Owes file
      (((readings tree bundle evaluator files).flatMap (·.2.usagesOf)).filter
        (·.location.file = file))
      (((readings tree bundle evaluator files).flatMap (·.2.failure?.toList)).filter
        (·.file = file))
      (((readings tree bundle evaluator files).flatMap (·.2.skipped?.toList)).filter
        (·.file = file)) := by
  have collected := owes_of_describes
    (describes_foldl_add ((readings tree bundle evaluator files).map (·.2))) file
  rw [List.flatMap_map, List.flatMap_map, List.flatMap_map, map_snd_readings] at collected
  exact collected

/-- A collection holds of a file that is read what comes out of it. -/
theorem owes_of_mem_readings
    (different : ((readings tree bundle evaluator files).map (·.1.toText)).Nodup) {path : Path}
    {outcome : FileOutcome} (h : (path, outcome) ∈ readings tree bundle evaluator files) :
    (ofFiles tree bundle evaluator files.sources files.markup).Owes path.toText outcome.usagesOf
      outcome.failure?.toList outcome.skipped?.toList := by
  have owes : (ofFiles tree bundle evaluator files.sources files.markup).Owes path.toText _ _ _ :=
    owes_ofFiles path.toText
  rwa [filter_flatMap_of_mem (fun _ inside => (names_of_mem_readings inside).usages) different h,
    filter_flatMap_of_mem (fun _ inside => (names_of_mem_readings inside).failure) different h,
    filter_flatMap_of_mem (fun _ inside => (names_of_mem_readings inside).skipped) different h]
    at owes

/-- A collection holds nothing of any other file. -/
theorem owes_of_not_mem_readings {file : String}
    (h : file ∉ (readings tree bundle evaluator files).map (·.1.toText)) :
    (ofFiles tree bundle evaluator files.sources files.markup).Owes file [] [] [] := by
  have owes : (ofFiles tree bundle evaluator files.sources files.markup).Owes file _ _ _ :=
    owes_ofFiles file
  rwa [filter_flatMap_of_not_mem (fun _ inside => (names_of_mem_readings inside).usages) h,
    filter_flatMap_of_not_mem (fun _ inside => (names_of_mem_readings inside).failure) h,
    filter_flatMap_of_not_mem (fun _ inside => (names_of_mem_readings inside).skipped) h] at owes

/-- A source file is in one class only. -/
theorem AccountsForSource.unique {collection : Collection} {path : Path} {c c' : FileClass}
    (h : collection.AccountsForSource tree bundle path c)
    (h' : collection.AccountsForSource tree bundle path c') : c = c' := by
  rcases h with ⟨read, scanned, -⟩ | ⟨read, scanned, -⟩ | ⟨read, -⟩ <;>
    rcases h' with ⟨read', scanned', -⟩ | ⟨read', scanned', -⟩ | ⟨read', -⟩
  all_goals
    first
    | rfl
    | cases read.symm.trans read' <;> cases scanned.symm.trans scanned'

/-- A markup file is in one class only. -/
theorem AccountsForMarkup.unique {collection : Collection} {evaluation : List Char → Evaluation}
    {path : Path} {c c' : FileClass}
    (h : collection.AccountsForMarkup tree bundle evaluation path c)
    (h' : collection.AccountsForMarkup tree bundle evaluation path c') : c = c' := by
  rcases h with ⟨read, ended, -⟩ | ⟨read, ended, -⟩ | ⟨read, -⟩ <;>
    rcases h' with ⟨read', ended', -⟩ | ⟨read', ended', -⟩ | ⟨read', -⟩
  all_goals
    first
    | rfl
    | cases read.symm.trans read' <;> cases ended.symm.trans ended'

/-- Every source file is in one class. -/
theorem existsUnique_source
    (different : ((readings tree bundle evaluator files).map (·.1.toText)).Nodup) {path : Path}
    (inside : path ∈ files.sources) :
    ∃! c, (ofFiles tree bundle evaluator files.sources files.markup).AccountsForSource tree bundle
      path c := by
  have listed : (path, FileOutcome.ofSource tree bundle path) ∈
      readings tree bundle evaluator files :=
    List.mem_append_left _ (List.mem_map_of_mem inside)
  have owes := owes_of_mem_readings different listed
  refine existsUnique_of_exists_of_unique ?_ fun _ _ => AccountsForSource.unique
  rw [FileOutcome.ofSource] at owes
  cases read : tree.read path with
  | error e =>
    rw [read] at owes
    exact ⟨_, .unreadable read owes⟩
  | ok text =>
    simp only [read, sourceUsages] at owes
    cases scanned : CallSite.scan bundle text with
    | error e =>
      rw [scanned] at owes
      exact ⟨_, .failed read scanned owes⟩
    | ok occurrences =>
      rw [scanned] at owes
      exact ⟨_, .merged read scanned owes⟩

/-- Every markup file is in one class, if the bundle reads markup. -/
theorem existsUnique_markup {evaluation : List Char → Evaluation} (reads : bundle.readsMarkup = true)
    (different : ((readings tree bundle (.recording evaluation) files).map (·.1.toText)).Nodup)
    {path : Path} (inside : path ∈ files.markup) :
    ∃! c, (ofFiles tree bundle (.recording evaluation) files.sources files.markup).AccountsForMarkup
      tree bundle evaluation path c := by
  have listed : (path, FileOutcome.ofMarkup tree bundle (.recording evaluation) path) ∈
      readings tree bundle (.recording evaluation) files := by
    rw [readings, if_pos reads]
    exact List.mem_append_right _ (List.mem_map_of_mem inside)
  have owes := owes_of_mem_readings different listed
  refine existsUnique_of_exists_of_unique ?_ fun _ _ => AccountsForMarkup.unique
  rw [FileOutcome.ofMarkup] at owes
  cases read : tree.read path with
  | error e =>
    rw [read] at owes
    exact ⟨_, .unreadable read owes⟩
  | ok text =>
    simp only [read, Markup.collectKeys_recording] at owes
    cases ended : (evaluation text).failure? with
    | none =>
      simp only [ended] at owes
      exact ⟨_, .merged read ended owes⟩
    | some message =>
      simp only [ended] at owes
      exact ⟨_, .unevaluated read ended owes⟩

/-! ## The order of locations -/

theorem file_of_mem_callsIn {path : Path} {usage : Usage} (h : usage ∈ callsIn tree bundle path) :
    usage.location.file = path.toText := by
  rw [← usagesOf_ofSource] at h
  exact (FileOutcome.names_ofSource tree bundle path).usages usage h

theorem file_of_mem_referencesIn {path : Path} {usage : Usage}
    (h : usage ∈ referencesIn tree bundle evaluator path) :
    usage.location.file = path.toText := by
  rw [← usagesOf_ofMarkup] at h
  exact (FileOutcome.names_ofMarkup tree bundle evaluator path).usages usage h

theorem position_of_mem_referencesIn {path : Path} {usage : Usage}
    (h : usage ∈ referencesIn tree bundle evaluator path) : usage.location.position = .start := by
  rw [← usagesOf_ofMarkup] at h
  obtain ⟨_, _, _, _, _, _, rfl⟩ := mem_usagesOf_ofMarkup.mp h
  rfl

/-- The calls of a file are in the order of their places. -/
theorem pairwise_callsIn (path : Path) :
    (callsIn tree bundle path).Pairwise (·.location.Before ·.location) := by
  rw [callsIn]
  cases tree.read path with
  | error e => exact .nil
  | ok text =>
    simp only
    cases scanned : CallSite.scan bundle text with
    | error e => exact .nil
    | ok occurrences =>
      have order := CallSite.pairwise_position_of_scan scanned
      rw [List.pairwise_map] at order
      exact List.pairwise_map.mpr (order.imp fun before => .inr ⟨rfl, before⟩)

/-- The calls of all files are in the order of their files and of their places. -/
theorem pairwise_calls (paths : List Path) :
    ((Path.sorted paths).flatMap (callsIn tree bundle)).Pairwise
      (·.location.Before ·.location) := by
  rw [List.pairwise_flatMap]
  refine ⟨fun path _ => pairwise_callsIn path, ?_⟩
  refine (Path.increasing_sorted paths).imp fun {a b} order usage inside usage' inside' => ?_
  refine .inl ?_
  rw [file_of_mem_callsIn inside, file_of_mem_callsIn inside']
  exact Text.bytes_lt_of_compare order

/-- The references of all files are in the order of their files. -/
theorem pairwise_references (paths : List Path) :
    ((Path.sorted paths).flatMap (referencesIn tree bundle evaluator)).Pairwise fun a b =>
      Text.bytes a.location.file < Text.bytes b.location.file ∨
        a.location.file = b.location.file := by
  rw [List.pairwise_flatMap]
  constructor
  · intro path _
    refine List.pairwise_of_forall_mem_list fun usage inside usage' inside' => .inr ?_
    rw [file_of_mem_referencesIn inside, file_of_mem_referencesIn inside']
  · refine (Path.increasing_sorted paths).imp fun {a b} order usage inside usage' inside' => .inl ?_
    rw [file_of_mem_referencesIn inside, file_of_mem_referencesIn inside']
    exact Text.bytes_lt_of_compare order

end Collection

/-- Every selected source file is in one class: all of its usages are collected, or it counts as one
malformed call site, or it is left out. So is every selected markup file if the bundle reads markup,
except that no call site in it is malformed; no other file counts. All keys are of the bundle. The
first usage of a key stands for it, and the key is located once wherever it is used: first at its
calls, by the bytes of their files and then by their places, and after that in markup files. -/
theorem Collection.ofFiles_accounts (tree : FileTree) (bundle : Bundle)
    (evaluation : List Char → Evaluation) (selection : Selection) :
    let files := selection.select tree
    let evaluator := Evaluator.recording evaluation
    let collection := Collection.ofFiles tree bundle evaluator files.sources files.markup
    (∀ path ∈ files.sources, ∃! c, collection.AccountsForSource tree bundle path c) ∧
    (∀ path ∈ files.markup,
      match bundle with
      | .lang => ∃! c, collection.AccountsForMarkup tree bundle evaluation path c
      | .menu => collection.Owes path.toText [] [] []) ∧
    (∀ file, (∀ path ∈ files.sources ++ files.markup, path.toText ≠ file) →
      collection.Owes file [] [] []) ∧
    (∀ usage ∈ collection.used.firsts, usage.bundle = bundle) ∧
    ∀ key,
      let identity : Usage.Identity := ⟨key, bundle⟩
      let calls := (files.sources.flatMap (callsIn tree bundle)).filter (·.identity = identity)
      let references :=
        (if bundle.readsMarkup then files.markup.flatMap (referencesIn tree bundle evaluator)
          else []).filter (·.identity = identity)
      collection.used.firsts.filter (·.identity = identity) =
          (calls ++ references).head?.toList ∧
        collection.used.locations identity = (calls ++ references).map (·.location) ∧
        (calls.map (·.location)).Pairwise Location.Before ∧
        (∀ location ∈ references.map (·.location), location.position = ⟨1, 1⟩) ∧
        (references.map (·.location)).Pairwise fun a b =>
          Text.bytes a.file < Text.bytes b.file ∨ a.file = b.file := by
  intro files evaluator collection
  have collected : collection.Describes _ := describes_foldl_add _
  have different : ((readings tree bundle evaluator files).map (·.1.toText)).Nodup :=
    nodup_readings selection
  have used := collected.used
  refine ⟨fun path inside => existsUnique_source different inside, fun path inside => ?_,
    fun file other => ?_, ?_, ?_⟩
  · cases bundle with
    | lang => exact existsUnique_markup rfl different inside
    | menu =>
      refine owes_of_not_mem_readings fun listed => ?_
      rcases mem_names_iff.mp listed with ⟨path', inside', same⟩ | ⟨reads, -⟩
      · obtain rfl := Path.toText_injective same
        exact Selection.not_mem_markup inside' inside
      · cases reads
  · refine owes_of_not_mem_readings fun listed => ?_
    rcases mem_names_iff.mp listed with ⟨path, inside, same⟩ | ⟨-, path, inside, same⟩
    · exact other path (List.mem_append_left _ inside) same
    · exact other path (List.mem_append_right _ inside) same
  · exact fun usage inside => bundle_of_mem_usages (used.mem_of_mem_firsts inside)
  · intro key identity calls references
    have whole : ((outcomes tree bundle evaluator files.sources files.markup).flatMap
        FileOutcome.usagesOf).filter (·.identity = identity) = calls ++ references := by
      rw [flatMap_usagesOf, List.filter_append]
    refine ⟨?_, ?_, ?_, ?_, ?_⟩
    · rw [used.filter_firsts, whole]
    · rw [used.locations_eq, whole]
    · exact List.pairwise_map.mpr ((pairwise_calls _).filter _)
    · intro location inside
      obtain ⟨usage, selected, rfl⟩ := List.mem_map.mp inside
      have listed := (List.mem_filter.mp selected).1
      split at listed
      · obtain ⟨path, -, found⟩ := List.mem_flatMap.mp listed
        exact position_of_mem_referencesIn found
      · cases listed
    · refine List.pairwise_map.mpr (List.Pairwise.filter _ ?_)
      split
      · exact pairwise_references _
      · exact .nil

end LocaleKeys
