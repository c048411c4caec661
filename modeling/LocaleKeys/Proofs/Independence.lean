import LocaleKeys.Proofs.Gate
import LocaleKeys.Proofs.Merging

/-!
# Bundles are checked on their own

Only the set of the bundles that are asked for matters to a check. `CheckReport.Joins` says how the
report on both bundles is put together from the reports on each: the issues are merged in the order
of reports, and a file that both leave out is named once. A check of both bundles fails exactly if
one of the two checks does, and comes to this report otherwise (`check_bundles`).
-/

namespace LocaleKeys

open Std

/-! ## The orders of reports -/

instance : TransOrd Rule :=
  inferInstanceAs (TransCmp (compareOn Rule.rank))

open Position in
instance : TransOrd Position :=
  inferInstanceAs (TransCmp (compareLex (compareOn line) (compareOn col)))

open Location in
instance : TransOrd Location :=
  inferInstanceAs (TransCmp (compareLex (compareOn file) (compareOn position)))

open Issue in
instance : TransOrd Issue :=
  inferInstanceAs (TransCmp (compareLex (compareOn location)
    (compareLex (compareOn rule) (compareLex (compareOn bundle) (compareOn message)))))

open SkippedNotice in
instance : TransOrd SkippedNotice :=
  inferInstanceAs (TransCmp (compareLex (compareOn file) (compareOn reason)))

instance : LawfulEqOrd SkippedNotice where
  eq_of_compare {a b} h := by
    obtain ⟨file, reason⟩ := Ordering.then_eq_eq.mp h
    cases a
    cases b
    congr
    · exact LawfulEqCmp.eq_of_compare file
    · exact LawfulEqCmp.eq_of_compare reason

theorem Issue.sorted_inReportOrder (issues : List Issue) :
    (inReportOrder issues).Pairwise (before · ·) :=
  sorted_mergeSort issues

/-- Two lists of issues can be put in order on their own and merged afterwards. -/
theorem Issue.inReportOrder_append (issues issues' : List Issue) :
    inReportOrder (issues ++ issues') =
      (inReportOrder issues).merge (inReportOrder issues') before :=
  mergeSort_append (fun _ _ _ => TransCmp.isLE_trans) isLE_total issues issues'

theorem SkippedNotice.increasing_sorted (notices : List SkippedNotice) :
    (sorted notices).Pairwise (compare · · = .lt) :=
  increasing_eraseReps (sorted_mergeSort notices)

theorem SkippedNotice.mem_sorted {notices : List SkippedNotice} {notice : SkippedNotice} :
    notice ∈ sorted notices ↔ notice ∈ notices :=
  mem_eraseReps_mergeSort

/-! ## Files that are left out -/

theorem Collection.file_of_skippedSource? {tree : FileTree} {path : Path} {skipped : SkippedFile}
    (h : skippedSource? tree path = some skipped) : skipped.file = path.toText := by
  have left : (FileOutcome.ofSource tree .lang path).skipped? = some skipped :=
    (skipped?_ofSource path).trans h
  exact (FileOutcome.names_ofSource tree .lang path).skipped skipped (by simp [left])

theorem Collection.file_of_skippedMarkup? {tree : FileTree} {evaluator : Markup.Evaluator}
    {path : Path} {skipped : SkippedFile} (h : skippedMarkup? tree evaluator path = some skipped) :
    skipped.file = path.toText := by
  have left : (FileOutcome.ofMarkup tree .lang evaluator path).skipped? = some skipped :=
    (skipped?_ofMarkup path).trans h
  exact (FileOutcome.names_ofMarkup tree .lang evaluator path).skipped skipped (by simp [left])

namespace Project

variable {project : Project} {tree : FileTree}

/-- The reason to leave a file of the project out. It does not depend on the bundle, which only
decides whether markup is read. -/
def skipped? (project : Project) (tree : FileTree) (path : Path) : Option SkippedFile :=
  if path ∈ project.files.markup then Collection.skippedMarkup? tree Markup.evaluate path
  else Collection.skippedSource? tree path

theorem file_of_skipped? {path : Path} {skipped : SkippedFile}
    (h : project.skipped? tree path = some skipped) : skipped.file = path.toText := by
  rw [skipped?] at h
  split at h
  · exact Collection.file_of_skippedMarkup? h
  · exact Collection.file_of_skippedSource? h

/-- The kinds of files are kept apart. -/
theorem not_mem_markup_of_opened {options : CheckOptions}
    (opened : Project.opened tree options = .ok project) {path : Path}
    (inside : path ∈ project.files.sources) : path ∉ project.files.markup := by
  obtain ⟨loaded, -, rfl⟩ := exists_load_of_opened opened
  exact Selection.not_mem_markup inside

theorem exists_skipped? (apart : ∀ path ∈ project.files.sources, path ∉ project.files.markup)
    {bundle : Bundle} {skipped : SkippedFile}
    (inside : skipped ∈ (project.collection tree bundle).skipped) :
    ∃ path, project.skipped? tree path = some skipped := by
  have collected : (project.collection tree bundle).Describes _ := Collection.describes_foldl_add _
  rw [collected.skipped_eq, Collection.filterMap_skipped?, List.mem_append] at inside
  rcases inside with inside | inside
  · obtain ⟨path, selected, reason⟩ := List.mem_filterMap.mp inside
    exact ⟨path, by rwa [skipped?, if_neg (apart path selected)]⟩
  · split at inside
    · obtain ⟨path, selected, reason⟩ := List.mem_filterMap.mp inside
      exact ⟨path, by rwa [skipped?, if_pos selected]⟩
    · cases inside

end Project

/-- Sorted notices of files that a project leaves out name each file once. -/
theorem SkippedNotice.increasing_files (project : Project) (tree : FileTree)
    {notices : List SkippedNotice}
    (h : ∀ notice ∈ notices,
      ∃ path skipped, project.skipped? tree path = some skipped ∧ notice = ofFile skipped) :
    (sorted notices).Pairwise fun a b => compare a.file b.file = .lt := by
  refine (increasing_sorted notices).imp_of_mem fun {a b} first second order => ?_
  obtain ⟨path, skipped, reason, rfl⟩ := h a (mem_sorted.mp first)
  obtain ⟨path', skipped', reason', rfl⟩ := h b (mem_sorted.mp second)
  rcases Ordering.then_eq_lt.mp order with file | ⟨file, later⟩
  · exact file
  · have same : skipped.file = skipped'.file := LawfulEqCmp.eq_of_compare file
    rw [Project.file_of_skipped? reason, Project.file_of_skipped? reason'] at same
    obtain rfl := Path.toText_injective same
    cases reason.symm.trans reason'
    rw [ReflOrd.compare_self] at later
    cases later

/-! ## The report on both bundles -/

theorem BundleReport.IsOn.bundle_eq {report : BundleReport} {project : Project} {tree : FileTree}
    {bundle : Bundle} (h : report.IsOn project tree bundle) : report.bundle = bundle := by
  obtain ⟨_, _, _, _, rfl⟩ := h
  rfl

theorem BundleReport.IsOn.collection_eq {report : BundleReport} {project : Project}
    {tree : FileTree} {bundle : Bundle} (h : report.IsOn project tree bundle) :
    report.collection = project.collection tree bundle := by
  obtain ⟨_, _, _, _, rfl⟩ := h
  rfl

/-- The report on both bundles is put together from the reports on messages and on menu titles. -/
structure CheckReport.Joins (both lang menu : CheckReport) : Prop where
  bundles_eq : both.bundles = lang.bundles ++ menu.bundles
  /-- Issues of messages come before issues of menu titles that the order does not tell apart. -/
  issues_eq : both.issues = lang.issues.merge menu.issues Issue.before
  sorted_issues : ∀ report ∈ [both, lang, menu], report.issues.Pairwise (Issue.before · ·)
  count_eq : ∀ severity, both.count severity = lang.count severity + menu.count severity
  mem_skipped_iff : ∀ notice, notice ∈ both.skipped ↔ notice ∈ lang.skipped ∨ notice ∈ menu.skipped
  /-- The files that are left out are in order, and no file is named twice. -/
  increasing_skipped : both.skipped.Pairwise fun a b => compare a.file b.file = .lt
  sourceFiles_eq : both.sourceFiles = lang.sourceFiles
  markupFiles_eq : both.markupFiles = lang.markupFiles
  inaccessible_eq : both.inaccessible = lang.inaccessible

namespace CheckReport

variable {project : Project} {tree : FileTree} {options : CheckOptions}

theorem perm_of_issues_eq {both lang menu : CheckReport}
    (h : both.issues = lang.issues.merge menu.issues Issue.before) :
    both.issues.Perm (lang.issues ++ menu.issues) := by
  rw [h]
  exact List.merge_perm_append _

theorem Joins.issues_eq_nil_iff {both lang menu : CheckReport} (h : both.Joins lang menu) :
    both.issues = [] ↔ lang.issues = [] ∧ menu.issues = [] := by
  have same := perm_of_issues_eq h.issues_eq
  rw [← List.append_eq_nil_iff, ← List.perm_nil, ← List.perm_nil]
  exact ⟨same.symm.trans, same.trans⟩

/-- There are issues of both bundles if there are issues of one. -/
theorem Joins.larger_code {both lang menu : CheckReport} (h : both.Joins lang menu) :
    (if both.issues = [] then 0 else 1) =
      max (if lang.issues = [] then 0 else 1) (if menu.issues = [] then 0 else 1) := by
  simp only [h.issues_eq_nil_iff]
  by_cases none : lang.issues = [] <;> by_cases none' : menu.issues = [] <;> simp [none, none']

theorem issues_ofBundles_append (reports reports' : List BundleReport) :
    (ofBundles project (reports ++ reports')).issues =
      (ofBundles project reports).issues.merge (ofBundles project reports').issues Issue.before := by
  simp only [ofBundles, List.flatMap_append]
  exact Issue.inReportOrder_append _ _

theorem joins_ofBundles (apart : ∀ path ∈ project.files.sources, path ∉ project.files.markup)
    {lang menu : BundleReport} (onLang : lang.IsOn project tree .lang)
    (onMenu : menu.IsOn project tree .menu) :
    (ofBundles project [lang, menu]).Joins (ofBundles project [lang]) (ofBundles project [menu]) where
  bundles_eq := rfl
  issues_eq := issues_ofBundles_append [lang] [menu]
  sorted_issues := by
    intro report among
    simp only [List.mem_cons, List.not_mem_nil, or_false] at among
    rcases among with rfl | rfl | rfl
    all_goals exact Issue.sorted_inReportOrder _
  count_eq := by
    intro severity
    have same : (ofBundles project [lang, menu]).issues.Perm
        ((ofBundles project [lang]).issues ++ (ofBundles project [menu]).issues) :=
      perm_of_issues_eq (issues_ofBundles_append [lang] [menu])
    have counted := (same.filter (·.severity = severity)).length_eq
    rwa [List.filter_append, List.length_append] at counted
  mem_skipped_iff := by
    intro notice
    simp only [ofBundles, SkippedNotice.mem_sorted, List.flatMap_cons, List.flatMap_nil,
      List.append_nil, List.mem_append]
  increasing_skipped := by
    refine SkippedNotice.increasing_files project tree fun notice inside => ?_
    simp only [List.flatMap_cons, List.flatMap_nil, List.append_nil, List.mem_append, List.mem_map,
      onLang.collection_eq, onMenu.collection_eq] at inside
    rcases inside with ⟨skipped, inside, rfl⟩ | ⟨skipped, inside, rfl⟩
    all_goals
      obtain ⟨path, reason⟩ := Project.exists_skipped? apart inside
      exact ⟨path, skipped, reason, rfl⟩
  sourceFiles_eq := rfl
  markupFiles_eq := by simp [ofBundles, onLang.bundle_eq, Bundle.readsMarkup]
  inaccessible_eq := rfl

/-- The checks of both bundles and of each come to reports together. -/
theorem of_both_eq_ok {both : CheckReport} (h : CheckReport.of tree options [.lang, .menu] = .ok both) :
    ∃ lang menu, CheckReport.of tree options [.lang] = .ok lang ∧
      CheckReport.of tree options [.menu] = .ok menu ∧ both.Joins lang menu := by
  have alone : ∀ bundle, requested [bundle] = [bundle] := fun bundle =>
    requested_of_increasing (List.cons_ne_nil _ _) (List.pairwise_singleton _ _)
  obtain ⟨project, reports, opened, on, rfl⟩ := exists_of_eq_ok h
  rw [← requested_nil] at on
  obtain ⟨lang, _, onLang, onOthers, rfl⟩ := List.forall₂_cons_left_iff.mp on
  obtain ⟨menu, _, onMenu, onNone, rfl⟩ := List.forall₂_cons_left_iff.mp onOthers
  obtain rfl := List.forall₂_nil_left_iff.mp onNone
  refine ⟨_, _, of_reports opened ?_, of_reports opened ?_,
    joins_ofBundles (fun _ => Project.not_mem_markup_of_opened opened) onLang onMenu⟩
  · rw [alone]
    exact .cons onLang .nil
  · rw [alone]
    exact .cons onMenu .nil

/-- The check of both bundles fails if the check of one does. -/
theorem exists_of_both_eq_error_iff :
    (∃ e, CheckReport.of tree options [.lang, .menu] = .error e) ↔
      (∃ e, CheckReport.of tree options [.lang] = .error e) ∨
        ∃ e, CheckReport.of tree options [.menu] = .error e := by
  have wider : ∀ bundle, Unusable tree options [bundle] → Unusable tree options [.lang, .menu] := by
    rintro bundle (broken | ⟨settings, missing⟩ | ⟨settings, -, broken⟩)
    · exact .configuration broken
    · exact .sourceRoot settings missing
    · exact .base settings (.inr (Bundle.mem_all _)) broken
  rw [exists_error_iff, exists_error_iff, exists_error_iff]
  constructor
  · rintro (broken | ⟨settings, missing⟩ | ⟨settings, selected, broken⟩)
    · exact .inl (.configuration broken)
    · exact .inl (.sourceRoot settings missing)
    · next bundle =>
      cases bundle with
      | lang => exact .inl (.base settings (.inr (by simp)) broken)
      | menu => exact .inr (.base settings (.inr (by simp)) broken)
  · exact fun unusable => unusable.elim (wider _) (wider _)

theorem of_congr {bundles bundles' : List Bundle} (same : requested bundles = requested bundles') :
    CheckReport.of tree options bundles = CheckReport.of tree options bundles' := by
  rw [CheckReport.of, CheckReport.of, same]

theorem log_congr {bundles bundles' : List Bundle} (same : requested bundles = requested bundles') :
    log tree options bundles = log tree options bundles' := by
  rw [log, log, same]

end CheckReport

/-! ## Checks of bundles -/

theorem Outcome.code_ofCheck_eq_two_iff (colors : Bool) (arguments : CommandLine.CheckArguments)
    (log : List LogEvent) (result : Except CheckError CheckReport) :
    (ofCheck colors arguments log result).status.code = 2 ↔ ∃ e, result = .error e := by
  cases result with
  | error e => exact iff_of_true rfl ⟨e, rfl⟩
  | ok report =>
    refine iff_of_false ?_ nofun
    rw [ofCheck, code_ofReport]
    split <;> decide

/-- A check depends only on the set of the bundles that are asked for, and no bundles are all
bundles. The check of both bundles fails if and only if the check of one of them does. Otherwise its
report is put together from theirs, and its exit status is the larger one. -/
theorem check_bundles (colors : Bool) (tree : FileTree) (arguments : CommandLine.CheckArguments) :
    let checked (bundles : List Bundle) :=
      CommandLine.check tree { arguments with bundles := bundles }
    let outcome (bundles : List Bundle) :=
      (CommandLine.run colors tree (.check { arguments with bundles := bundles })).2
    let code (bundles : List Bundle) := (outcome bundles).status.code
    (∀ bundles bundles' : List Bundle, bundles ≠ [] → bundles' ≠ [] →
      (∀ bundle, bundle ∈ bundles ↔ bundle ∈ bundles') →
        checked bundles = checked bundles' ∧ outcome bundles = outcome bundles') ∧
    checked [] = checked [.lang, .menu] ∧ outcome [] = outcome [.lang, .menu] ∧
    (code [.lang, .menu] = 2 ↔ code [.lang] = 2 ∨ code [.menu] = 2) ∧
    (code [.lang, .menu] = 2 ∨
      ∃ both lang menu, checked [.lang, .menu] = .ok both ∧ checked [.lang] = .ok lang ∧
        checked [.menu] = .ok menu ∧ both.Joins lang menu ∧
        code [.lang, .menu] = max (code [.lang]) (code [.menu])) := by
  intro checked outcome code
  have ended : ∀ bundles, outcome bundles = .ofCheck colors arguments
      (CheckReport.log tree arguments.options bundles) (checked bundles) := by
    intro bundles
    simp only [outcome, CommandLine.run, checked]
    cases CommandLine.check tree { arguments with bundles := bundles } <;> rfl
  have same : ∀ bundles bundles',
      CheckReport.requested bundles = CheckReport.requested bundles' →
      checked bundles = checked bundles' ∧ outcome bundles = outcome bundles' := by
    intro bundles bundles' same
    have congr : checked bundles = checked bundles' := CheckReport.of_congr same
    exact ⟨congr, by rw [ended, ended, congr, CheckReport.log_congr same]⟩
  have failed : ∀ bundles, code bundles = 2 ↔ ∃ e, checked bundles = .error e := by
    intro bundles
    rw [← Outcome.code_ofCheck_eq_two_iff colors arguments _, ← ended]
  refine ⟨fun bundles bundles' some some' members =>
    same _ _ (CheckReport.requested_congr some some' members),
    (same _ _ CheckReport.requested_nil).1, (same _ _ CheckReport.requested_nil).2, ?_, ?_⟩
  · rw [failed, failed, failed]
    exact CheckReport.exists_of_both_eq_error_iff
  · rw [failed]
    cases known : checked [.lang, .menu] with
    | error e => exact .inl ⟨e, rfl⟩
    | ok both =>
      obtain ⟨lang, menu, knownLang, knownMenu, joins⟩ := CheckReport.of_both_eq_ok known
      have codes : ∀ {bundles report}, checked bundles = .ok report →
          code bundles = if report.issues = [] then 0 else 1 := by
        intro bundles report known
        simp only [code]
        rw [ended, known]
        exact Outcome.code_ofReport colors arguments _ report
      have codeLang : code [.lang] = if lang.issues = [] then 0 else 1 := codes knownLang
      have codeMenu : code [.menu] = if menu.issues = [] then 0 else 1 := codes knownMenu
      refine .inr ⟨both, lang, menu, rfl, knownLang, knownMenu, joins, ?_⟩
      rw [codes known, codeLang, codeMenu, joins.larger_code]

end LocaleKeys
