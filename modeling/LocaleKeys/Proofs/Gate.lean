import LocaleKeys.CommandLine.Run
import LocaleKeys.Proofs.Collection
import LocaleKeys.Proofs.Comparison
import LocaleKeys.Proofs.Project
import LocaleKeys.Proofs.Shares
import LocaleKeys.Proofs.Sorting

/-!
# The gate

`ExactIssues` says which issues of a bundle there are: those of the differences between the keys
that files use and the keys that definitions define, those of malformed calls and those of repeated
definitions. The issues that a check reports of a selected bundle are exactly these, and the exit
status tells whether there are any (`check_gate`).
-/

namespace LocaleKeys

open Properties (Entry)
open Properties.Entry (firstOf? repetitions)

/-- A file of the project that is read without a fault uses the key. -/
def Project.Uses (project : Project) (tree : FileTree) (bundle : Bundle) (key : String) : Prop :=
  Collection.Uses tree bundle Markup.evaluate project.files.sources project.files.markup key

namespace Issue

/-- The issues of a rule. -/
def ofRule (rule : Rule) (issues : List Issue) : List Issue :=
  issues.filter (·.rule = rule)

/-- The issues of a bundle. -/
def about (bundle : Bundle) (issues : List Issue) : List Issue :=
  issues.filter (·.bundle = bundle)

end Issue

/-- The issues are those of a bundle whose base resource file holds the definitions: one error for
each source file with a malformed call and each key that is used and not defined, and one warning
for each key that is defined and not used, at its first definition, and each repeated definition. -/
structure ExactIssues (tree : FileTree) (project : Project) (bundle : Bundle)
    (entries : List Entry) (issues : List Issue) : Prop where
  extraction : (Issue.ofRule .extractionError issues).Perm
    ((project.files.sources.filterMap (Collection.failureIn? tree bundle)).map
      (Issue.ofExtractionError bundle))
  missing : ((Issue.ofRule .missingKey issues).map Issue.message).Nodup ∧
    ∀ key, key ∈ (Issue.ofRule .missingKey issues).map Issue.message ↔
      project.Uses tree bundle key ∧ firstOf? key entries = none
  obsolete : ((Issue.ofRule .obsoleteKey issues).map Issue.message).Nodup ∧
    ∀ issue, issue ∈ Issue.ofRule .obsoleteKey issues ↔
      ∃ key first, firstOf? key entries = some first ∧ ¬ project.Uses tree bundle key ∧
        issue = ⟨bundle, ⟨(project.bundlePath bundle).toText, ⟨first.line, 1⟩⟩, .obsolete key⟩
  repeated : (Issue.ofRule .duplicateKey issues).Perm
    ((repetitions [] entries).map (Issue.ofRepeated bundle (project.bundlePath bundle).toText))
  severity : ∀ issue ∈ issues, issue.severity = .error ↔
    issue.rule = .extractionError ∨ issue.rule = .missingKey

/-- The order of the issues is not their content. -/
theorem ExactIssues.perm {tree : FileTree} {project : Project} {bundle : Bundle}
    {entries : List Entry} {issues issues' : List Issue}
    (h : ExactIssues tree project bundle entries issues) (same : issues.Perm issues') :
    ExactIssues tree project bundle entries issues' := by
  have rules : ∀ rule, (Issue.ofRule rule issues).Perm (Issue.ofRule rule issues') :=
    fun rule => same.filter _
  have messages : ∀ rule, ((Issue.ofRule rule issues).map Issue.message).Perm
      ((Issue.ofRule rule issues').map Issue.message) := fun rule => (rules rule).map _
  refine ⟨(rules _).symm.trans h.extraction, ⟨?_, fun key => ?_⟩, ⟨?_, fun issue => ?_⟩,
    (rules _).symm.trans h.repeated, fun issue inside => ?_⟩
  · exact (messages _).nodup h.missing.1
  · rw [← (messages _).mem_iff]
    exact h.missing.2 key
  · exact (messages _).nodup h.obsolete.1
  · rw [← (rules _).mem_iff]
    exact h.obsolete.2 issue
  · exact h.severity issue (same.mem_iff.mpr inside)

/-! ## Issues of a bundle -/

theorem Issue.ofRule_map {α : Type} {f : α → Issue} {rule : Rule} (h : ∀ a, (f a).rule = rule)
    (rule' : Rule) (items : List α) :
    ofRule rule' (items.map f) = if rule = rule' then items.map f else [] := by
  rw [ofRule]
  split
  · next same => simp [h, same]
  · next other => simp [h, other]

/-- The issues of a report, rule by rule. -/
theorem BundleReport.ofRule_issues (report : BundleReport) :
    Issue.ofRule .extractionError report.issues =
        report.collection.failures.map (Issue.ofExtractionError report.bundle) ∧
      Issue.ofRule .missingKey report.issues =
        (Comparison.of report.collection.used report.defined).missing.map
          (Issue.ofMissing report.bundle report.defined.file) ∧
      Issue.ofRule .obsoleteKey report.issues =
        (Comparison.of report.collection.used report.defined).obsolete.map
          (Issue.ofObsolete report.bundle report.defined) ∧
      Issue.ofRule .duplicateKey report.issues =
        report.defined.repeated.map (Issue.ofRepeated report.bundle report.defined.file) := by
  have append : ∀ rule issues issues',
      Issue.ofRule rule (issues ++ issues') =
        Issue.ofRule rule issues ++ Issue.ofRule rule issues' :=
    fun _ _ _ => List.filter_append ..
  have extraction : ∀ failure,
      (Issue.ofExtractionError report.bundle failure).rule = .extractionError := fun _ => rfl
  have missing : ∀ key,
      (Issue.ofMissing report.bundle report.defined.file key).rule = .missingKey := fun _ => rfl
  have obsolete : ∀ key,
      (Issue.ofObsolete report.bundle report.defined key).rule = .obsoleteKey := fun _ => rfl
  have repeated : ∀ definition,
      (Issue.ofRepeated report.bundle report.defined.file definition).rule = .duplicateKey :=
    fun _ => rfl
  simp only [BundleReport.issues, Issue.ofBundle, append, Issue.ofRule_map extraction,
    Issue.ofRule_map missing, Issue.ofRule_map obsolete, Issue.ofRule_map repeated, reduceCtorEq,
    if_true, if_false, List.append_nil, List.nil_append, and_self]

/-- The issue of an obsolete key stands at its first definition. -/
theorem DefinedKeys.Describes.ofObsolete_eq {defined : DefinedKeys} {file key : String}
    {entries : List Entry} {first : Entry} (h : defined.Describes file entries) (bundle : Bundle)
    (found : firstOf? key entries = some first) :
    Issue.ofObsolete bundle defined key =
      ⟨bundle, ⟨file, ⟨first.line, 1⟩⟩, .obsolete key⟩ := by
  rw [Issue.ofObsolete, h.lineOf?_eq, found, h.file_eq]
  rfl

/-- The issues of a report on a bundle are those of the bundle. -/
theorem BundleReport.IsOn.exactIssues {tree : FileTree} {project : Project} {bundle : Bundle}
    {report : BundleReport} (h : report.IsOn project tree bundle) :
    ∃ text entries, tree.read (project.bundlePath bundle) = .ok text ∧
      Properties.parse text = .ok entries ∧
      ExactIssues tree project bundle entries report.issues := by
  obtain ⟨text, entries, read, parsed, rfl⟩ := h
  refine ⟨text, entries, read, parsed, ?_⟩
  have defines := DefinedKeys.describes_ofEntries (project.bundlePath bundle).toText entries
  have collected : (project.collection tree bundle).Describes _ := Collection.describes_foldl_add _
  obtain ⟨extraction, missing, obsolete, repeated⟩ := BundleReport.ofRule_issues
    ⟨bundle, .ofEntries (project.bundlePath bundle).toText entries, project.collection tree bundle⟩
  refine ⟨?_, ⟨?_, fun key => ?_⟩, ⟨?_, fun issue => ?_⟩, ?_, fun issue _ => ?_⟩
  · rw [extraction, collected.failures_eq, Collection.filterMap_failure?]
  · rw [missing, List.map_map]
    exact Comparison.nodup_missing_keys collected.used fun _ => Collection.bundle_of_mem_usages
  · rw [missing, List.map_map]
    refine (Comparison.mem_missing_keys_iff collected.used defines).trans ?_
    rw [Collection.exists_usage_iff, Project.Uses]
  · have keys : ∀ (defined : DefinedKeys) (keys : List String),
        (keys.map (Issue.ofObsolete bundle defined)).map Issue.message = keys := by
      intro defined keys
      rw [List.map_map]
      exact List.map_id'' (fun _ => rfl) keys
    rw [obsolete, keys]
    exact SortedMap.nodup_of_increasing (Comparison.obsolete_sorted defines)
  · rw [obsolete, List.mem_map]
    constructor
    · rintro ⟨key, reported, rfl⟩
      obtain ⟨⟨first, found⟩, unused⟩ :=
        (Comparison.mem_obsolete_iff_firstOf? collected.used defines).mp reported
      rw [Collection.exists_usage_iff] at unused
      exact ⟨key, first, found, unused, defines.ofObsolete_eq bundle found⟩
    · rintro ⟨key, first, found, unused, rfl⟩
      refine ⟨key, ?_, defines.ofObsolete_eq bundle found⟩
      apply (Comparison.mem_obsolete_iff_firstOf? collected.used defines).mpr
      rw [Collection.exists_usage_iff]
      exact ⟨⟨first, found⟩, unused⟩
  · rw [repeated, defines.repeated_eq, defines.file_eq]
  · rw [Issue.severity]
    cases issue.rule <;> decide

/-! ## The report of a check -/

theorem BundleReport.bundle_of_mem_issues {report : BundleReport} {issue : Issue}
    (h : issue ∈ report.issues) : issue.bundle = report.bundle := by
  simp only [issues, Issue.ofBundle, List.mem_append, List.mem_map] at h
  rcases h with ((⟨_, _, rfl⟩ | ⟨_, _, rfl⟩) | ⟨_, _, rfl⟩) | ⟨_, _, rfl⟩
  all_goals rfl

theorem Issue.about_issues (bundle : Bundle) (report : BundleReport) :
    about bundle report.issues = if report.bundle = bundle then report.issues else [] := by
  rw [about]
  split
  · next same =>
    apply List.filter_eq_self.mpr
    intro issue inside
    simp [report.bundle_of_mem_issues inside, same]
  · next other =>
    apply List.filter_eq_nil_iff.mpr
    intro issue inside
    simp [report.bundle_of_mem_issues inside, other]

theorem Issue.about_flatMap (bundle : Bundle) (reports : List BundleReport) :
    about bundle (reports.flatMap BundleReport.issues) =
      (reports.filter (·.bundle = bundle)).flatMap BundleReport.issues := by
  induction reports with
  | nil => rfl
  | cons report reports ih =>
    rw [List.flatMap_cons, about, List.filter_append, ← about, ← about, ih, about_issues]
    by_cases same : report.bundle = bundle
    · rw [if_pos same, List.filter_cons_of_pos (by simpa using same), List.flatMap_cons]
    · rw [if_neg same, List.filter_cons_of_neg (by simpa using same), List.nil_append]

/-- Among the issues of reports on different bundles, those about a bundle are those of its
report. -/
theorem Issue.about_of_mem {reports : List BundleReport}
    (different : (reports.map (·.bundle)).Nodup) {report : BundleReport} (h : report ∈ reports) :
    about report.bundle (reports.flatMap BundleReport.issues) = report.issues := by
  have single : reports.filter (·.bundle = report.bundle) = [report] :=
    filter_eq_singleton different h
  rw [about_flatMap, single, List.flatMap_singleton]

/-- The reports of a check are on the selected bundles, one by one. -/
theorem reports_on_bundles {tree : FileTree} {project : Project} {bundles : List Bundle}
    {reports : List BundleReport}
    (h : List.Forall₂ (fun bundle report => BundleReport.IsOn report project tree bundle) bundles
      reports) :
    reports.map (·.bundle) = bundles ∧
      ∀ report ∈ reports, report.IsOn project tree report.bundle := by
  induction h with
  | nil => exact ⟨rfl, nofun⟩
  | cons on _ ih =>
    obtain ⟨text, entries, read, parsed, rfl⟩ := on
    refine ⟨by rw [List.map_cons, ih.1], ?_⟩
    rw [List.forall_mem_cons]
    exact ⟨⟨text, entries, read, parsed, rfl⟩, ih.2⟩

/-! ## The outcome of a check -/

theorem Outcome.code_ofReport (colors : Bool) (arguments : CommandLine.CheckArguments)
    (log : List LogEvent) (report : CheckReport) :
    (ofReport colors arguments log report).status.code = if report.issues = [] then 0 else 1 := by
  rw [ofReport]
  cases report.issues <;> rfl

/-- The issues of reports on the selected bundles are, bundle by bundle, those that there are. -/
theorem CheckReport.about_issues {tree : FileTree} {project : Project} {bundles : List Bundle}
    {reports : List BundleReport}
    (h : List.Forall₂ (fun bundle report => BundleReport.IsOn report project tree bundle)
      (requested bundles) reports) :
    (∀ bundle, bundles = [] ∨ bundle ∈ bundles →
      ∃ text entries, tree.read (project.bundlePath bundle) = .ok text ∧
        Properties.parse text = .ok entries ∧
        ExactIssues tree project bundle entries
          (Issue.about bundle (ofBundles project reports).issues)) ∧
    ∀ issue ∈ (ofBundles project reports).issues, bundles = [] ∨ issue.bundle ∈ bundles := by
  have reported : (reports.flatMap BundleReport.issues).Perm (ofBundles project reports).issues :=
    (List.mergeSort_perm _ _).symm
  obtain ⟨listed, own⟩ := reports_on_bundles h
  have different : (reports.map (·.bundle)).Nodup := by
    rw [listed]
    exact nodup_requested _
  constructor
  · intro bundle selected
    rw [← mem_requested_iff, ← listed, List.mem_map] at selected
    obtain ⟨report, inside, rfl⟩ := selected
    obtain ⟨text, entries, read, parsed, exact⟩ := (own report inside).exactIssues
    rw [← Issue.about_of_mem different inside] at exact
    exact ⟨text, entries, read, parsed, exact.perm (reported.filter _)⟩
  · intro issue inside
    rw [← reported.mem_iff, List.mem_flatMap] at inside
    obtain ⟨report, among, inside⟩ := inside
    rw [report.bundle_of_mem_issues inside, ← mem_requested_iff, ← listed]
    exact List.mem_map_of_mem among

/-- A check fails, with nothing written as its result, exactly if it is unusable. Otherwise the
issues that it reports of each selected bundle are those that there are, it reports none of another
bundle, and its exit status tells whether it reports any. -/
theorem check_gate (colors : Bool) (tree : FileTree) (arguments : CommandLine.CheckArguments) :
    let outcome := (CommandLine.run colors tree (.check arguments)).2
    (outcome.status.code = 2 ∧ outcome.output = [] ↔
      Unusable tree arguments.options arguments.bundles) ∧
    (¬ Unusable tree arguments.options arguments.bundles →
      ∃ project report, Project.opened tree arguments.options = .ok project ∧
        CommandLine.check tree arguments = .ok report ∧
        outcome = .ofReport colors arguments (CommandLine.checkLog tree arguments) report ∧
        project.files.sources.Nodup ∧
        (∀ bundle, arguments.bundles = [] ∨ bundle ∈ arguments.bundles →
          ∃ text entries, tree.read (project.bundlePath bundle) = .ok text ∧
            Properties.parse text = .ok entries ∧
            ExactIssues tree project bundle entries (Issue.about bundle report.issues)) ∧
        (∀ issue ∈ report.issues, arguments.bundles = [] ∨ issue.bundle ∈ arguments.bundles) ∧
        (outcome.status.code = 0 ↔ report.issues = []) ∧
        (outcome.status.code = 1 ↔ report.issues ≠ [])) := by
  intro outcome
  have failed : (∃ e, CommandLine.check tree arguments = .error e) ↔
      Unusable tree arguments.options arguments.bundles := CheckReport.exists_error_iff
  cases checked : CommandLine.check tree arguments with
  | error e =>
    have unusable := failed.mp ⟨e, checked⟩
    have ended : outcome =
        { Outcome.failure e.message with log := CommandLine.checkLog tree arguments } := by
      simp only [outcome, CommandLine.run, checked]
      rfl
    refine ⟨iff_of_true ?_ unusable, fun usable => absurd unusable usable⟩
    rw [ended]
    exact ⟨rfl, rfl⟩
  | ok report =>
    have usable : ¬ Unusable tree arguments.options arguments.bundles := by
      rw [← failed]
      rintro ⟨e, unchecked⟩
      rw [checked] at unchecked
      cases unchecked
    have ended : outcome =
        .ofReport colors arguments (CommandLine.checkLog tree arguments) report := by
      simp only [outcome, CommandLine.run, checked]
      rfl
    have codes : outcome.status.code = if report.issues = [] then 0 else 1 := by
      rw [ended]
      exact Outcome.code_ofReport colors arguments _ report
    refine ⟨iff_of_false ?_ usable, fun _ => ?_⟩
    · rintro ⟨two, -⟩
      rw [codes] at two
      split at two <;> cases two
    · obtain ⟨project, reports, opened, on, rfl⟩ := CheckReport.exists_of_eq_ok checked
      obtain ⟨exact, selected⟩ := CheckReport.about_issues on
      refine ⟨project, _, opened, rfl, ended, ?_, exact, selected, ?_, ?_⟩
      · obtain ⟨loaded, -, same⟩ := Project.exists_load_of_opened opened
        rw [same]
        exact Path.nodup_sorted _
      · rw [codes]
        split <;> simp [*]
      · rw [codes]
        split <;> simp [*]

end LocaleKeys
