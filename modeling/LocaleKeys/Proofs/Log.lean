import LocaleKeys.CommandLine.Run
import LocaleKeys.Proofs.Collection
import LocaleKeys.Proofs.Files.Selected

/-!
# What is logged

Nothing that is logged is an error: what makes a check fail is no event but its end. So no event is
shown unless more is asked for, and a command writes its result and its complaints only
(`Outcome.errorText_false`). The warnings account for what a check leaves out. There is one for each
path that a walk cannot access (`Selection.inaccessible_eq_length`), and one for each file with a
malformed call and each file that cannot be read or evaluated (`Collection.length_warnings`).
-/

namespace LocaleKeys

theorem LogEvent.isShown_false_iff {event : LogEvent} :
    event.isShown false = true ↔ event.level = .error := by
  obtain ⟨level, _, _⟩ := event
  cases level <;> simp [isShown, LogLevel.limit, LogLevel.rank]

/-! ## Levels -/

namespace Selection

variable {tree : FileTree} {base : Path} {item : List Char} {event : LogEvent}

theorem level_of_ignoreWarning? (h : ignoreWarning? item = some event) :
    event.level = .warning := by
  rw [ignoreWarning?] at h
  repeat' split at h
  all_goals cases h
  rfl

theorem level_of_includeWarning? (h : includeWarning? tree base item = some event) :
    event.level = .warning := by
  rw [includeWarning?] at h
  repeat' split at h
  all_goals cases h
  all_goals rfl

/-- While files are selected, all is a warning but the event at the end. -/
theorem level_of_mem_log {selection : Selection} (h : event ∈ selection.log tree) :
    event.level ≠ .error := by
  simp only [log, List.mem_append, List.mem_filterMap, List.mem_map, List.mem_singleton] at h
  rcases h with ((⟨item, -, faulty⟩ | ⟨item, -, faulty⟩) | ⟨_, -, rfl⟩) | rfl
  · rw [level_of_ignoreWarning? faulty]
    nofun
  · rw [level_of_includeWarning? faulty]
    nofun
  · nofun
  · nofun

/-- There is one warning for each path that is counted as one that cannot be accessed. -/
theorem inaccessible_eq_length (selection : Selection) (tree : FileTree) :
    (selection.select tree).inaccessible =
      ((selection.startingPoints tree).flatMap tree.accessErrors).length := by
  rw [inaccessible_eq_sum, List.length_flatMap]
  rfl

end Selection

theorem FileOutcome.level_of_warning? {outcome : FileOutcome} {bundle : Bundle} {event : LogEvent}
    (h : outcome.warning? bundle = some event) : event.level = .warning := by
  cases outcome <;> cases h <;> rfl

namespace Collection

variable {tree : FileTree} {bundle : Bundle} {evaluator : Markup.Evaluator}
  {sources markup : List Path}

/-- While files are collected, the warnings are those about files. -/
theorem warnings_log :
    (log tree bundle evaluator sources markup).filter (·.level = .warning) =
      (outcomes tree bundle evaluator sources markup).filterMap (FileOutcome.warning? bundle) := by
  have warnings : ∀ event ∈ (outcomes tree bundle evaluator sources markup).filterMap
      (FileOutcome.warning? bundle), decide (event.level = .warning) = true := by
    intro event inside
    obtain ⟨outcome, -, warned⟩ := List.mem_filterMap.mp inside
    exact decide_eq_true (FileOutcome.level_of_warning? warned)
  rw [log, List.filter_append, List.filter_eq_self.mpr warnings]
  exact List.append_nil _

theorem level_of_mem_log {event : LogEvent}
    (h : event ∈ log tree bundle evaluator sources markup) : event.level ≠ .error := by
  simp only [log, List.mem_append, List.mem_filterMap, List.mem_singleton] at h
  rcases h with ⟨outcome, -, warned⟩ | rfl
  · rw [FileOutcome.level_of_warning? warned]
    nofun
  · nofun

theorem length_warnings_outcomes (outcomes : List FileOutcome) :
    (outcomes.filterMap (FileOutcome.warning? bundle)).length =
      (outcomes.filterMap FileOutcome.failure?).length +
        (outcomes.filterMap FileOutcome.skipped?).length := by
  induction outcomes with
  | nil => rfl
  | cons outcome outcomes ih =>
    cases outcome with
    | usages _ => exact ih
    | failed failure =>
      simp only [List.filterMap_cons, FileOutcome.warning?, FileOutcome.failure?,
        FileOutcome.skipped?, List.length_cons, ih]
      omega
    | skipped file =>
      simp only [List.filterMap_cons, FileOutcome.warning?, FileOutcome.failure?,
        FileOutcome.skipped?, List.length_cons, ih]
      omega

/-- There is one warning for each file with a malformed call and each file that is left out. -/
theorem length_warnings :
    ((log tree bundle evaluator sources markup).filter (·.level = .warning)).length =
      (ofFiles tree bundle evaluator sources markup).failures.length +
        (ofFiles tree bundle evaluator sources markup).skipped.length := by
  have collected := describes_foldl_add (outcomes tree bundle evaluator sources markup)
  rw [warnings_log, length_warnings_outcomes, ofFiles, collected.failures_eq,
    collected.skipped_eq]

end Collection

/-! ## A check -/

section

variable {project : Project} {tree : FileTree} {event : LogEvent}

theorem BundleReport.level_of_mem_log {report : BundleReport} (h : event ∈ report.log) :
    event.level ≠ .error := by
  simp only [log, DefinedKeys.log, List.mem_append, List.mem_map, List.mem_singleton] at h
  rcases h with ⟨_, -, rfl⟩ | rfl
  · nofun
  · nofun

theorem BundleReport.level_of_mem_logOf {bundle : Bundle} (h : event ∈ logOf project tree bundle) :
    event.level ≠ .error := by
  rw [logOf, List.mem_append] at h
  rcases h with collected | reported
  · exact Collection.level_of_mem_log collected
  · split at reported
    · exact level_of_mem_log reported
    · cases reported

theorem BundleReport.level_of_mem_logOfAll {bundles : List Bundle}
    (h : event ∈ logOfAll project tree bundles) : event.level ≠ .error := by
  induction bundles with
  | nil => cases h
  | cons bundle bundles ih =>
    rw [logOfAll, List.mem_append] at h
    rcases h with first | others
    · exact level_of_mem_logOf first
    · split at others
      · exact ih others
      · cases others

theorem Project.level_of_mem_log (h : event ∈ project.log tree) : event.level ≠ .error := by
  simp only [log, List.mem_append, List.mem_singleton] at h
  rcases h with selected | rfl
  · exact Selection.level_of_mem_log selected
  · nofun

theorem CheckReport.level_of_mem_log {options : CheckOptions} {bundles : List Bundle}
    (h : event ∈ log tree options bundles) : event.level ≠ .error := by
  rw [log] at h
  split at h
  · cases h
  · rcases List.mem_append.mp h with opened | checked
    · exact Project.level_of_mem_log opened
    · exact BundleReport.level_of_mem_logOfAll checked

end

theorem CommandLine.level_of_mem_log_run {colors : Bool} {tree : FileTree} {command : Command}
    {event : LogEvent} (h : event ∈ (run colors tree command).2.log) : event.level ≠ .error := by
  cases command with
  | check arguments =>
    rw [run, Outcome.ofCheck.eq_def] at h
    split at h
    all_goals exact CheckReport.level_of_mem_log h
  | init =>
    rw [run, init] at h
    split at h
    all_goals cases h

/-- A command that is not asked for more writes what it complains of, and no event. -/
theorem Outcome.errorText_false (colors : Bool) (tree : FileTree) (command : CommandLine.Command) :
    (CommandLine.run colors tree command).2.errorText false =
      (CommandLine.run colors tree command).2.complaints := by
  have none : ((CommandLine.run colors tree command).2.log.filter (·.isShown false)) = [] := by
    rw [List.filter_eq_nil_iff]
    intro event logged shown
    exact CommandLine.level_of_mem_log_run logged (LogEvent.isShown_false_iff.mp shown)
  rw [errorText, none]
  rfl

end LocaleKeys
