import LocaleKeys.Proofs.CallSite.Pointing
import LocaleKeys.Proofs.Gate
import LocaleKeys.Proofs.Independence
import LocaleKeys.Proofs.Report.Gutter

/-!
# The report points at calls

A source line that an issue of a check comes with is one that a scan found a call on, at the column
of the issue (`CheckReport.pointsAtCall`). So the carets of the report that is printed stand below
calls, and its marks in one column (`report_points_at_calls`).
-/

namespace LocaleKeys

/-! ## The issues of a check -/

/-- The source line of the issue, if it is known, has a call at the column of the issue. -/
def Issue.PointsAtCall (issue : Issue) : Prop :=
  ∀ source, issue.sourceLine? = some source → ∃ front,
    front ++ CallSite.className <+: source.toList ∧
      issue.location.position.col = front.length + 1

/-- The usage stands where a scan found it, if its source line is known. -/
theorem Collection.pointsAtCall_of_mem_usages {tree : FileTree} {bundle : Bundle}
    {evaluator : Markup.Evaluator} {sources markup : List Path} {usage : Usage} {source : String}
    (h : usage ∈ (outcomes tree bundle evaluator sources markup).flatMap FileOutcome.usagesOf)
    (known : usage.sourceLine = some source) :
    ∃ front, front ++ CallSite.className <+: source.toList ∧
      usage.location.position.col = front.length + 1 := by
  rcases mem_usages_iff.mp h with ⟨path, -, inside⟩ | ⟨-, path, -, inside⟩
  · obtain ⟨text, occurrences, -, scanned, occurrence, found, rfl⟩ :=
      mem_usagesOf_ofSource.mp inside
    cases known
    exact (CallSite.pointsAtCall_of_mem_scan scanned found).call
  · obtain ⟨_, _, -, -, key, -, rfl⟩ := mem_usagesOf_ofMarkup.mp inside
    cases known

theorem BundleReport.IsOn.pointsAtCall {tree : FileTree} {project : Project} {bundle : Bundle}
    {report : BundleReport} (h : report.IsOn project tree bundle) {issue : Issue}
    (inside : issue ∈ report.issues) : issue.PointsAtCall := by
  obtain ⟨text, entries, -, -, rfl⟩ := h
  intro source known
  simp only [BundleReport.issues, Issue.ofBundle, List.mem_append, List.mem_map] at inside
  rcases inside with ((⟨_, -, rfl⟩ | ⟨missing, reported, rfl⟩) | ⟨_, -, rfl⟩) | ⟨_, -, rfl⟩
  · cases known
  · have collected : (project.collection tree bundle).Describes _ :=
      Collection.describes_foldl_add _
    have listed := (List.mem_filter.mp reported).1
    have first := (collected.used.identity_first (collected.used.mem_values_iff.mp listed)).1
    exact Collection.pointsAtCall_of_mem_usages first known
  · cases known
  · cases known

/-- Every issue of a check points at a call if its source line is known. -/
theorem CheckReport.pointsAtCall {tree : FileTree} {options : CheckOptions} {bundles : List Bundle}
    {report : CheckReport} (h : CheckReport.of tree options bundles = .ok report) {issue : Issue}
    (inside : issue ∈ report.issues) : issue.PointsAtCall := by
  obtain ⟨project, reports, -, on, rfl⟩ := exists_of_eq_ok h
  have reported : issue ∈ reports.flatMap BundleReport.issues :=
    (List.mergeSort_perm _ _).mem_iff.mp inside
  obtain ⟨bundleReport, among, listed⟩ := List.mem_flatMap.mp reported
  exact ((reports_on_bundles on).2 bundleReport among).pointsAtCall listed

/-- The issues of a report are in the order of reports. -/
theorem CheckReport.inReportOrder_issues {tree : FileTree} {options : CheckOptions}
    {bundles : List Bundle} {report : CheckReport}
    (h : CheckReport.of tree options bundles = .ok report) :
    Issue.inReportOrder report.issues = report.issues := by
  obtain ⟨project, reports, -, -, rfl⟩ := exists_of_eq_ok h
  exact List.mergeSort_of_pairwise (Issue.sorted_inReportOrder _)

/-- Printed without colours, a report shows its issues one after the other, with all their marks in
one column. Every line number fits in front of it. The caret below a source line stands at the
display column at which the call on that line starts. -/
theorem report_points_at_calls {tree : FileTree} {arguments : CommandLine.CheckArguments}
    {report : CheckReport} (checked : CommandLine.check tree arguments = .ok report) :
    ∃ blocks,
      Report.text false report = Report.unlines (blocks.flatten ++
        if report.issues.isEmpty then
          [Report.successLine false report.sourceFiles report.markupFiles]
        else Report.summaryLines false report.issues) ∧
      List.Forall₂ (Report.Shows (Report.gutterWidth report.issues)) report.issues blocks ∧
      ∀ issue ∈ report.issues, issue.PointsAtCall := by
  refine ⟨report.issues.map (Report.issueLines false (Report.gutterWidth report.issues)),
    ?_, ?_, ?_⟩
  · rw [Report.text, CheckReport.inReportOrder_issues checked, Report.issueReport,
      ← List.flatMap_def]
    cases report.issues <;> rfl
  · rw [List.forall₂_map_right_iff, List.forall₂_same]
    intro issue inside
    exact Report.shows_issueLines fun shown => Report.length_digits_le_gutterWidth inside shown
  · exact fun issue inside => CheckReport.pointsAtCall checked inside

/-- A project that does not define a key, with a call for it behind characters of two columns. -/
def wideCall : FileTree :=
  (FileTree.empty.write ⟨"src/main/A.java".toList⟩
    (.text "\n日本(Localization.lang(\"Save\"));\nLocalization.lang(\"Save\")".toList)).write
    ⟨"keys".toList⟩ (.text [])

/-- The check of one bundle of this project. -/
def wideCallArguments : CommandLine.CheckArguments :=
  { CommandLine.CheckArguments.none with bundles := [.lang], langBundle? := some "keys" }

/-- The missing key, at the first of its two calls. -/
def wideCallIssue : Issue :=
  ⟨.lang, ⟨"./src/main/A.java", ⟨2, 4⟩⟩, .missing "Save" (some "日本(Localization.lang(\"Save\"));")
    [⟨"./src/main/A.java", ⟨3, 1⟩⟩] "./keys"⟩

theorem report_points_at_calls_wide :
    ∃ report block, CommandLine.check wideCall wideCallArguments = .ok report ∧
      report.issues = [wideCallIssue] ∧
      Report.text false report =
        Report.unlines (block ++ Report.summaryLines false [wideCallIssue]) ∧
      Report.Shows 1 wideCallIssue block ∧ wideCallIssue.PointsAtCall := by
  have found : (CommandLine.check wideCall wideCallArguments).toOption.map (·.issues)
      = some [wideCallIssue] := by decide +kernel
  cases checked : CommandLine.check wideCall wideCallArguments with
  | error e => simp [checked, Except.toOption] at found
  | ok report =>
    have issues : report.issues = [wideCallIssue] := by
      simpa [checked, Except.toOption] using found
    obtain ⟨blocks, text, shown, points⟩ := report_points_at_calls checked
    have width : Report.gutterWidth [wideCallIssue] = 1 := by decide
    rw [issues, width] at shown
    obtain ⟨block, shows, rfl⟩ :
        ∃ block, Report.Shows 1 wideCallIssue block ∧ blocks = [block] := by
      cases shown with
      | cons shows rest =>
        cases rest
        exact ⟨_, shows, rfl⟩
    refine ⟨report, block, rfl, issues, ?_, shows, points _ (by simp [issues])⟩
    rw [text, issues]
    simp

end LocaleKeys
