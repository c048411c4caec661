import LocaleKeys.Proofs.Independence
import LocaleKeys.Proofs.Properties.KeyLine

/-!
# The order of a report is the only one

The order of issues knows nothing of usages, source lines and first definitions, so it does not tell
all issues apart. It does tell apart the issues of one check (`BundleReport.IsOn.toldApart`): a
source file fails once for a bundle, no key is missing or obsolete twice, and no two definitions
stand on one line. What the order tells apart can be sorted in one way only, so the issues of a
report do not depend on how they were collected or sorted (`report_canonical`).
-/

namespace LocaleKeys

open Std

/-! ## What the order of issues tells apart -/

instance : LawfulEqOrd Rule where
  eq_of_compare {a b} h := by
    cases a <;> cases b <;> first | rfl | exact absurd h (by decide)

instance : LawfulEqOrd Position where
  eq_of_compare {a b} h := by
    obtain ⟨line, col⟩ := Ordering.then_eq_eq.mp h
    cases a
    cases b
    congr
    · exact LawfulEqCmp.eq_of_compare line
    · exact LawfulEqCmp.eq_of_compare col

instance : LawfulEqOrd Location where
  eq_of_compare {a b} h := by
    obtain ⟨file, position⟩ := Ordering.then_eq_eq.mp h
    cases a
    cases b
    congr
    · exact LawfulEqCmp.eq_of_compare file
    · exact LawfulEqCmp.eq_of_compare position

namespace Issue

theorem compare_eq_eq_iff {a b : Issue} :
    compare a b = .eq ↔
      a.location = b.location ∧ a.rule = b.rule ∧ a.bundle = b.bundle ∧ a.message = b.message := by
  have parts : compare a b = (compare a.location b.location).then ((compare a.rule b.rule).then
      ((compare a.bundle b.bundle).then (compare a.message b.message))) := rfl
  rw [parts, Ordering.then_eq_eq, Ordering.then_eq_eq, Ordering.then_eq_eq]
  simp only [Std.compare_eq_iff_eq]

/-- The order tells any two of the issues apart. -/
def ToldApart (issues : List Issue) : Prop :=
  issues.Pairwise fun a b => compare a b ≠ .eq

variable {issues issues' : List Issue}

theorem ToldApart.perm (h : ToldApart issues) (same : issues.Perm issues') : ToldApart issues' := by
  refine List.Pairwise.perm h same fun {a b} apart equal => apart ?_
  rw [compare_eq_eq_iff] at equal ⊢
  exact ⟨equal.1.symm, equal.2.1.symm, equal.2.2.1.symm, equal.2.2.2.symm⟩

/-- Issues are told apart if those of each class are, where the order knows the class. -/
theorem toldApart_of_classes {α : Type} [DecidableEq α] (classOf : Issue → α)
    (known : ∀ a b, compare a b = .eq → classOf a = classOf b)
    (h : ∀ x, ToldApart (issues.filter (classOf · = x))) : ToldApart issues := by
  induction issues with
  | nil => exact .nil
  | cons a issues ih =>
    refine .cons (fun b inside equal => ?_) (ih fun x => ?_)
    · have own := h (classOf a)
      rw [List.filter_cons_of_pos (by simp)] at own
      have sibling : b ∈ issues.filter (classOf · = classOf a) :=
        List.mem_filter.mpr ⟨inside, by simp [known a b equal]⟩
      exact List.rel_of_pairwise_cons own sibling equal
    · exact (h x).sublist ((List.sublist_cons_self a issues).filter _)

/-- Issues that differ in what they name are told apart. -/
theorem toldApart_of_nodup {α : Type} (name : Issue → α)
    (known : ∀ a b, compare a b = .eq → name a = name b) (h : (issues.map name).Nodup) :
    ToldApart issues :=
  (List.pairwise_map.mp h).imp fun other equal => other (known _ _ equal)

theorem ToldApart.increasing (h : ToldApart issues) (sorted : issues.Pairwise (before · ·)) :
    issues.Pairwise (compare · · = .lt) := by
  refine (h.and sorted).imp fun {a b} ⟨apart, order⟩ => ?_
  exact (Ordering.isLE_iff_eq_lt_or_eq_eq.mp order).resolve_right apart

/-- Issues that are told apart can be sorted in one way only. -/
theorem ToldApart.eq_of_sorted (h : ToldApart issues) (same : issues.Perm issues')
    (sorted : issues.Pairwise (before · ·)) (sorted' : issues'.Pairwise (before · ·)) :
    issues = issues' := by
  have increasing := h.increasing sorted
  have increasing' := (h.perm same).increasing sorted'
  refine same.eq_of_pairwise (fun a b _ _ order order' => ?_) increasing increasing'
  exact absurd (TransCmp.lt_trans order order') (by simp [ReflOrd.compare_self])

end Issue

/-! ## The issues of a check -/

namespace BundleReport

variable {report : BundleReport} {project : Project} {tree : FileTree} {bundle : Bundle}

/-- A source file fails once for a bundle. -/
theorem IsOn.toldApart_failures (on : report.IsOn project tree bundle)
    (once : project.files.sources.Nodup) :
    Issue.ToldApart (report.collection.failures.map (Issue.ofExtractionError report.bundle)) := by
  have collected : (project.collection tree bundle).Describes _ := Collection.describes_foldl_add _
  rw [on.collection_eq, collected.failures_eq, Collection.filterMap_failure?, Issue.ToldApart,
    List.pairwise_map, List.pairwise_filterMap]
  refine once.imp fun {path path'} other failure failed failure' failed' equal => other ?_
  have file := congrArg Location.file (Issue.compare_eq_eq_iff.mp equal).1
  apply Path.toText_injective
  rw [← Collection.file_of_failureIn? failed, ← Collection.file_of_failureIn? failed']
  exact file

/-- No key is missing or obsolete twice, and no two definitions stand on one line. -/
theorem IsOn.toldApart_ofRule (on : report.IsOn project tree bundle)
    (once : project.files.sources.Nodup) (rule : Rule) :
    Issue.ToldApart (Issue.ofRule rule report.issues) := by
  have failures := on.toldApart_failures once
  obtain ⟨text, entries, read, parsed, rfl⟩ := on
  have collected : (project.collection tree bundle).Describes _ := Collection.describes_foldl_add _
  have defines := DefinedKeys.describes_ofEntries (project.bundlePath bundle).toText entries
  obtain ⟨extraction, missing, obsolete, repeated⟩ := BundleReport.ofRule_issues
    ⟨bundle, .ofEntries (project.bundlePath bundle).toText entries, project.collection tree bundle⟩
  have message : ∀ a b : Issue, compare a b = .eq → a.message = b.message :=
    fun _ _ equal => (Issue.compare_eq_eq_iff.mp equal).2.2.2
  have line : ∀ a b : Issue, compare a b = .eq →
      a.location.position.line = b.location.position.line :=
    fun _ _ equal => by rw [(Issue.compare_eq_eq_iff.mp equal).1]
  cases rule with
  | extractionError =>
    rw [extraction]
    exact failures
  | missingKey =>
    rw [missing]
    refine Issue.toldApart_of_nodup Issue.message message ?_
    rw [List.map_map]
    exact Comparison.nodup_missing_keys collected.used fun _ => Collection.bundle_of_mem_usages
  | obsoleteKey =>
    rw [obsolete]
    refine Issue.toldApart_of_nodup Issue.message message ?_
    rw [List.map_map]
    exact (SortedMap.nodup_of_increasing (Comparison.obsolete_sorted defines)).map fun _ _ => id
  | duplicateKey =>
    rw [repeated]
    refine Issue.toldApart_of_nodup (·.location.position.line) line ?_
    have order : (entries.map (·.line)).Pairwise (· < ·) :=
      List.pairwise_map.mpr (Properties.pairwise_line_of_parse parsed)
    rw [List.map_map, defines.repeated_eq]
    exact (order.sublist (Properties.Entry.lines_repetitions_sublist [] entries)).imp Nat.ne_of_lt

/-- The order tells the issues of a bundle apart. -/
theorem IsOn.toldApart (on : report.IsOn project tree bundle)
    (once : project.files.sources.Nodup) : Issue.ToldApart report.issues :=
  Issue.toldApart_of_classes Issue.rule (fun _ _ equal => (Issue.compare_eq_eq_iff.mp equal).2.1)
    (on.toldApart_ofRule once)

end BundleReport

/-- The order tells the issues of different bundles apart. -/
theorem Issue.toldApart_flatMap {reports : List BundleReport}
    (different : (reports.map (·.bundle)).Nodup)
    (h : ∀ report ∈ reports, ToldApart report.issues) :
    ToldApart (reports.flatMap BundleReport.issues) := by
  refine toldApart_of_classes Issue.bundle
    (fun _ _ equal => (compare_eq_eq_iff.mp equal).2.2.1) fun bundle => ?_
  rw [← about]
  by_cases reported : ∃ report ∈ reports, report.bundle = bundle
  · obtain ⟨report, inside, rfl⟩ := reported
    rw [about_of_mem different inside]
    exact h report inside
  · have none : reports.filter (·.bundle = bundle) = [] := by simpa using reported
    rw [about_flatMap, none]
    exact .nil

/-- The order of reports tells the issues of a check apart, so the report lists them in strictly
increasing order, which is the same whatever order they were collected in and however they are
sorted. The report for people, which sorts them again, shows them as they are. -/
theorem report_canonical {tree : FileTree} {options : CheckOptions} {bundles : List Bundle}
    {report : CheckReport} (h : CheckReport.of tree options bundles = .ok report) :
    ∃ project reports, Project.opened tree options = .ok project ∧
      (CheckReport.requested bundles).mapM (BundleReport.of project tree) = .ok reports ∧
      Issue.ToldApart (reports.flatMap BundleReport.issues) ∧
      report.issues.Pairwise (compare · · = .lt) ∧
      (∀ collected, collected.Perm (reports.flatMap BundleReport.issues) →
        Issue.inReportOrder collected = report.issues ∧
        ∀ sorted, sorted.Perm collected → sorted.Pairwise (Issue.before · ·) →
          sorted = report.issues) ∧
      ∀ colors, report.issues ≠ [] →
        Report.text colors report = Report.unlines (Report.issueReport colors report.issues) := by
  obtain ⟨project, reports, opened, on, rfl⟩ := CheckReport.exists_of_eq_ok h
  have once : project.files.sources.Nodup := by
    obtain ⟨loaded, -, same⟩ := Project.exists_load_of_opened opened
    rw [same]
    exact Path.nodup_sorted _
  obtain ⟨listed, own⟩ := reports_on_bundles on
  have different : (reports.map (·.bundle)).Nodup := listed ▸ CheckReport.nodup_requested _
  have apart : Issue.ToldApart (reports.flatMap BundleReport.issues) :=
    Issue.toldApart_flatMap different fun report inside => (own report inside).toldApart once
  have reported : (CheckReport.ofBundles project reports).issues.Perm
      (reports.flatMap BundleReport.issues) := List.mergeSort_perm _ _
  have sorted : (CheckReport.ofBundles project reports).issues.Pairwise (Issue.before · ·) :=
    Issue.sorted_inReportOrder _
  have only : ∀ issues, issues.Perm (reports.flatMap BundleReport.issues) →
      issues.Pairwise (Issue.before · ·) → issues = (CheckReport.ofBundles project reports).issues :=
    fun issues same order =>
      (apart.perm same.symm).eq_of_sorted (same.trans reported.symm) order sorted
  refine ⟨project, reports, opened,
    mapM_eq_ok_iff.mpr (on.imp fun _ _ => BundleReport.of_eq_ok_iff.mpr), apart,
    (apart.perm reported.symm).increasing sorted, fun collected same => ⟨?_, ?_⟩, ?_⟩
  · exact only _ ((List.mergeSort_perm _ _).trans same) (Issue.sorted_inReportOrder _)
  · exact fun sorted same' => only sorted (same'.trans same)
  · intro colors some
    have again := only _ ((List.mergeSort_perm _ _).trans reported)
      (Issue.sorted_inReportOrder (CheckReport.ofBundles project reports).issues)
    rw [Report.text, if_neg (by simpa using some)]
    exact congrArg (fun issues => Report.unlines (Report.issueReport colors issues)) again

/-- A project whose bundles share one resource file, with two keys of one markup file that are
missing at the same place and a key defined twice. -/
def sharedFile : FileTree :=
  ((FileTree.empty.write ⟨"src/main/A.java".toList⟩ (.text "Localization.lang(\"a\")".toList)).write
    ⟨"src/main/V.fxml".toList⟩ (.text "<V a='%m' b='%n'/>".toList)).write
    ⟨"keys".toList⟩ (.text "x=\nx=".toList)

theorem report_canonical_sharedFile :
    ∃ report, CheckReport.of sharedFile ⟨.here, none, some "keys", some "keys"⟩ [] = .ok report ∧
      report.issues.length = 7 ∧ report.issues.Pairwise (compare · · = .lt) := by
  have succeeds : (CheckReport.of sharedFile ⟨.here, none, some "keys", some "keys"⟩ []).isOk := by
    decide +kernel
  have found : ((Project.opened sharedFile ⟨.here, none, some "keys", some "keys"⟩).bind
      fun project => ((CheckReport.requested []).mapM (BundleReport.of project sharedFile)).map
        fun reports => (reports.flatMap BundleReport.issues).length).toOption = some 7 := by
    decide +kernel
  cases h : CheckReport.of sharedFile ⟨.here, none, some "keys", some "keys"⟩ [] with
  | error _ => simp [h, Except.isOk, Except.toBool] at succeeds
  | ok report =>
    obtain ⟨project, reports, opened, on, -, increasing, only, -⟩ := report_canonical h
    refine ⟨report, rfl, ?_, increasing⟩
    rw [opened, Except.bind, on] at found
    rw [← (only _ (.refl _)).1, Issue.inReportOrder, List.length_mergeSort]
    simpa [Except.map, Except.toOption] using found

end LocaleKeys
