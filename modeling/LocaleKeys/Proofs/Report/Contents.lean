import LocaleKeys.Proofs.Json.RoundTrip
import LocaleKeys.Report.Json

/-!
# What a report for programs tells

`Contents` is what there is to know of a check: the bundles, the issues, the files that were left
out and the counts. A program can take it out of the report by the names of the members alone: the
rule of an issue says which members follow, no name stands twice, and only the source line and the
usages may be missing. So the report loses nothing (`json_lossless`).
-/

namespace LocaleKeys

/-! ## Members by their names -/

namespace Json

/-- The values of the members of a name. -/
def named (name : String) : Json → List Json
  | .object members => (members.filter (·.1 = encode name.toList)).map (·.2)
  | _ => []

/-- What is read from the only member of a name. -/
def member? {α : Type} (name : String) (read : Json → Option α) (value : Json) : Option α :=
  match value.named name with
  | [only] => read only
  | _ => none

/-- What is read from the only member of a name, which may be missing. -/
def optional? {α : Type} (name : String) (read : Json → Option α) (value : Json) :
    Option (Option α) :=
  match value.named name with
  | [] => some none
  | [only] => (read only).map some
  | _ => none

/-- The text of a string. -/
def string? (value : Json) : Option String :=
  value.text?.map String.ofList

/-- What is read from the items of an array. -/
def items? {α : Type} (read : Json → Option α) : Json → Option (List α)
  | .array items => items.mapM read
  | _ => none

@[simp]
theorem named_ofMembers (name : String) (members : List (String × Json)) :
    (ofMembers members).named name = (members.filter (·.1 = name)).map (·.2) := by
  have same : ∀ other : String, encode other.toList = encode name.toList ↔ other = name := by
    intro other
    constructor
    · exact fun h => String.toList_injective (encode_injective h)
    · exact fun h => h ▸ rfl
  rw [ofMembers, named, List.filter_map, List.map_map]
  simp [Function.comp_def, same]

@[simp]
theorem string?_ofText (text : String) : (ofText text).string? = some text := by
  rw [string?, text?_ofText, Option.map_some, String.ofList_toList]

/-- Items that can each be read are read in order. -/
theorem items?_map {α : Type} {read : Json → Option α} {write : α → Json}
    (h : ∀ a, read (write a) = some a) (list : List α) :
    items? read (.array (list.map write)) = some list := by
  rw [items?]
  induction list with
  | nil => rfl
  | cons a list ih => simp [h, ih]

end Json

/-! ## Locations and issues -/

/-- The rule of a name. -/
def Rule.ofName? (name : String) : Option Rule :=
  [extractionError, missingKey, obsoleteKey, duplicateKey].find? (·.name == name)

@[simp]
theorem Rule.ofName?_name (rule : Rule) : ofName? rule.name = some rule := by
  cases rule <;> decide

@[simp]
theorem Bundle.ofName?_name (bundle : Bundle) : ofName? bundle.name = some bundle := by
  cases bundle <;> decide

namespace Report

open Json

/-- The location that a JSON value gives. -/
def location? (value : Json) : Option Location := do
  let file ← value.member? "file_path" string?
  let line ← value.member? "line" natural?
  let col ← value.member? "col" natural?
  return ⟨file, ⟨line, col⟩⟩

/-- What is particular to an issue of the rule. -/
def finding? (rule : Rule) (value : Json) : Option Issue.Finding :=
  match rule with
  | .extractionError => do
    return .malformedCall (← value.member? "error" string?)
  | .missingKey => do
    let key ← value.member? "key" string?
    let sourceLine ← value.optional? "source_line" string?
    let usages ← value.optional? "usages" (items? location?)
    let bundleFile ← value.member? "bundle_file" string?
    return .missing key sourceLine (usages.getD []) bundleFile
  | .obsoleteKey => do
    return .obsolete (← value.member? "key" string?)
  | .duplicateKey => do
    let key ← value.member? "key" string?
    let firstLine ← value.member? "first_line" natural?
    return .repeated key firstLine

/-- The issue that a JSON value gives, with the severity of its rule. -/
def issue? (value : Json) : Option Issue := do
  let rule ← (← value.member? "rule" string?) |> Rule.ofName?
  let severity ← value.member? "severity" string?
  let bundle ← (← value.member? "bundle" string?) |> Bundle.ofName?
  let location ← value.member? "location" location?
  let finding ← finding? rule value
  if severity = rule.severity.name then some ⟨bundle, location, finding⟩ else none

theorem location?_locationJson (location : Location) :
    location? (locationJson location) = some location := by
  simp [location?, locationJson, member?]

/-- An issue is told apart by its rule, and each of its members by its name. -/
theorem issue?_issueJson (issue : Issue) : issue? (issueJson issue) = some issue := by
  obtain ⟨bundle, location, finding⟩ := issue
  cases finding with
  | malformedCall error =>
    simp [issue?, issueJson, findingMembers, Issue.rule, Issue.severity, member?, finding?,
      location?_locationJson]
  | missing key sourceLine usages bundleFile =>
    have places : ∀ first more,
        items? location? (.array (locationJson first :: more.map locationJson))
          = some (first :: more) :=
      fun first more => items?_map location?_locationJson (first :: more)
    cases sourceLine <;> cases usages <;>
      simp [issue?, issueJson, findingMembers, Issue.rule, Issue.severity, member?, optional?,
        finding?, location?_locationJson, places]
  | obsolete key =>
    simp [issue?, issueJson, findingMembers, Issue.rule, Issue.severity, member?, finding?,
      location?_locationJson]
  | repeated key firstLine =>
    simp [issue?, issueJson, findingMembers, Issue.rule, Issue.severity, member?, finding?,
      location?_locationJson]

/-! ## The whole report -/

/-- What there is to know of a check. -/
structure Contents where
  bundles : List Bundle
  issues : List Issue
  skipped : List SkippedNotice
  errors : Nat
  warnings : Nat
  sourceFiles : Nat
  markupFiles : Nat
  skippedFiles : Nat
deriving DecidableEq

/-- The notice that a JSON value gives. -/
def notice? (value : Json) : Option SkippedNotice := do
  let file ← value.member? "filePath" string?
  let reason ← value.member? "reason" string?
  return ⟨file, reason⟩

namespace Contents

/-- What a report tells. -/
def of (report : CheckReport) : Contents where
  bundles := report.bundles
  issues := report.issues
  skipped := report.skipped
  errors := report.count .error
  warnings := report.count .warning
  sourceFiles := report.sourceFiles
  markupFiles := report.markupFiles
  skippedFiles := report.skippedCount

/-- What a JSON value tells. -/
def ofJson? (value : Json) : Option Contents := do
  let bundles ← value.member? "bundles" (items? fun name => name.string?.bind Bundle.ofName?)
  let issues ← value.member? "issues" (items? issue?)
  let skipped ← value.member? "skippedFiles" (items? notice?)
  let summary ← value.member? "summary" some
  let errors ← summary.member? "errors" natural?
  let warnings ← summary.member? "warnings" natural?
  let sourceFiles ← summary.member? "sourceFiles" natural?
  let markupFiles ← summary.member? "markupFiles" natural?
  let skippedFiles ← summary.member? "skippedFiles" natural?
  return ⟨bundles, issues, skipped, errors, warnings, sourceFiles, markupFiles, skippedFiles⟩

/-- What the text of a report tells. -/
def read? (text : List Char) : Option Contents :=
  (parse? text).bind ofJson?

theorem ofJson?_toJson (report : CheckReport) : ofJson? (toJson report) = some (.of report) := by
  have names : ∀ bundles : List Bundle,
      items? (fun name => name.string?.bind Bundle.ofName?)
        (.array (bundles.map fun bundle => ofText bundle.name)) = some bundles :=
    items?_map fun bundle => by simp
  have issues : ∀ issues : List Issue, items? issue? (.array (issues.map issueJson)) = some issues :=
    items?_map issue?_issueJson
  have notices : ∀ notices : List SkippedNotice,
      items? notice? (.array (notices.map skippedJson)) = some notices :=
    items?_map fun notice => by simp [notice?, skippedJson, member?]
  simp [ofJson?, toJson, member?, names, issues, notices, Contents.of]

end Contents

@[simp]
theorem printable_locationJson (location : Location) : Printable (locationJson location) := by
  apply printable_ofMembers
  simp

theorem printable_issueJson (issue : Issue) : Printable (issueJson issue) := by
  obtain ⟨bundle, location, finding⟩ := issue
  apply printable_ofMembers
  cases finding with
  | malformedCall error => simp [findingMembers]
  | missing key sourceLine usages bundleFile =>
    have places := printable_array_map locationJson printable_locationJson usages
    cases sourceLine <;> cases usages <;> simp_all [findingMembers]
  | obsolete key => simp [findingMembers]
  | repeated key firstLine => simp [findingMembers]

theorem printable_toJson (report : CheckReport) : Printable (toJson report) := by
  apply printable_ofMembers
  simp only [List.forall_mem_cons]
  refine ⟨?_, ?_, ?_, ?_, nofun⟩
  · exact printable_array_map _ (fun bundle => printable_ofText _) _
  · exact printable_array_map _ printable_issueJson _
  · refine printable_array_map _ (fun notice => ?_) _
    apply printable_ofMembers
    simp
  · apply printable_ofMembers
    simp

/-- The report of a check for programs is one JSON document, from which all that it tells is
recovered: the bundles, the issues in order with all their fields, the files that were left out, and
the counts. So results of checks have the same report exactly if they tell the same, and no two
results with different issues do. -/
theorem json_lossless (report : CheckReport) :
    Json.parse? (json report) = some (toJson report) ∧
    Contents.read? (json report) = some (.of report) ∧
    (∀ other, json other = json report ↔ Contents.of other = Contents.of report) ∧
    ∀ other, other.issues ≠ report.issues → json other ≠ json report := by
  have parsed : ∀ report, Json.parse? (json report) = some (toJson report) := fun report =>
    Json.parse?_print_append (printable_toJson report) (by decide)
  have read : ∀ report, Contents.read? (json report) = some (.of report) := by
    intro report
    rw [Contents.read?, parsed, Option.bind_some, Contents.ofJson?_toJson]
  have same : ∀ other, json other = json report → Contents.of other = Contents.of report := by
    intro other equal
    have both := read other
    rw [equal, read report] at both
    exact (Option.some.inj both).symm
  refine ⟨parsed report, read report, fun other => ⟨same other, fun equal => ?_⟩, ?_⟩
  · simp only [Contents.of, Contents.mk.injEq] at equal
    simp only [json, toJson, equal]
  · intro other different equal
    exact different (congrArg Contents.issues (same other equal))

end Report

end LocaleKeys
