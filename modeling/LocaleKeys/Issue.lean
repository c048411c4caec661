import LocaleKeys.CallSite.Scan
import LocaleKeys.Comparison

/-!
# Issues

What a check reports about a bundle: malformed call sites, missing keys, obsolete keys and
repeated definitions. Every issue has all that a report shows of it. Issues are reported in the
order of their locations, then of their rules, bundles and messages.
-/

namespace LocaleKeys

/-- How grave an issue is. -/
inductive Severity where
  | error
  | warning
deriving DecidableEq

/-- The name of a severity in reports. -/
def Severity.name : Severity → String
  | .error => "error"
  | .warning => "warning"

/-- What an issue is about. -/
inductive Rule where
  /-- A call site is malformed, and the keys of its file were left out. -/
  | extractionError
  /-- A key is in use but not defined. -/
  | missingKey
  /-- A key is defined but not in use. -/
  | obsoleteKey
  /-- A key is defined again. -/
  | duplicateKey
deriving DecidableEq

namespace Rule

/-- The name of a rule in reports. -/
def name : Rule → String
  | .extractionError => "extraction-error"
  | .missingKey => "missing-key"
  | .obsoleteKey => "obsolete-key"
  | .duplicateKey => "duplicate-key"

/-- The severity of the issues of a rule. -/
def severity : Rule → Severity
  | .extractionError | .missingKey => .error
  | .obsoleteKey | .duplicateKey => .warning

/-- The rank of a rule among issues at one location. -/
def rank : Rule → Nat
  | .extractionError => 0
  | .missingKey => 1
  | .obsoleteKey => 2
  | .duplicateKey => 3

instance : Ord Rule := ⟨fun a b => compare a.rank b.rank⟩

end Rule

/-- A malformed call site in a file. -/
structure FileExtractionError where
  file : String
  error : ExtractionError
deriving DecidableEq

/-- The report of a malformed call site with its file in front. -/
def FileExtractionError.message (failure : FileExtractionError) : String :=
  s!"{failure.file}: {failure.error.message}"

/-- What is particular to the issues of each rule. -/
inductive Issue.Finding where
  | malformedCall (error : String)
  | missing (key : String) (sourceLine : Option String) (usages : List Location)
      (bundleFile : String)
  | obsolete (key : String)
  | repeated (key : String) (firstLine : Nat)
deriving DecidableEq

/-- An issue of a bundle. -/
structure Issue where
  bundle : Bundle
  location : Location
  finding : Issue.Finding
deriving DecidableEq

namespace Issue

/-- The rule that the issue breaks. -/
def rule (issue : Issue) : Rule :=
  match issue.finding with
  | .malformedCall .. => .extractionError
  | .missing .. => .missingKey
  | .obsolete .. => .obsoleteKey
  | .repeated .. => .duplicateKey

/-- The severity of the issue. -/
def severity (issue : Issue) : Severity :=
  issue.rule.severity

/-- The key or the error that the issue is about. -/
def message (issue : Issue) : String :=
  match issue.finding with
  | .malformedCall error => error
  | .missing key .. | .obsolete key | .repeated key _ => key

/-- The message is a key, which reports quote. -/
def messageIsKey (issue : Issue) : Bool :=
  match issue.finding with
  | .malformedCall _ => false
  | _ => true

/-- The source line at the location of the issue, if it is known. -/
def sourceLine? (issue : Issue) : Option String :=
  match issue.finding with
  | .missing _ sourceLine .. => sourceLine
  | _ => none

/-- The further places that the issue concerns. -/
def usages (issue : Issue) : List Location :=
  match issue.finding with
  | .missing _ _ usages _ => usages
  | _ => []

/-- How to mend the issue. -/
def hint? (issue : Issue) : Option String :=
  match issue.finding with
  | .missing key _ _ bundleFile => some s!"add \"{key}\" to {bundleFile}"
  | _ => none

/-- What else there is to know about the issue. -/
def details? (issue : Issue) : Option String :=
  match issue.finding with
  | .malformedCall _ => some "keys of this file were not checked"
  | .missing .. => none
  | .obsolete _ => some "defined but not used in any source or markup file"
  | .repeated _ firstLine => some s!"first defined on line {firstLine}"

/-- The order of issues in reports. -/
instance : Ord Issue :=
  ⟨fun a b =>
    (compare a.location b.location).then <|
      (compare a.rule b.rule).then <|
        (compare a.bundle b.bundle).then (compare a.message b.message)⟩

/-- The first issue is not reported after the second. -/
def before (a b : Issue) : Bool :=
  (compare a b).isLE

/-- Issues in the order of reports. Issues that the order does not tell apart stay in order. -/
def inReportOrder (issues : List Issue) : List Issue :=
  issues.mergeSort before

/-- The issue of a malformed call site. -/
def ofExtractionError (bundle : Bundle) (failure : FileExtractionError) : Issue :=
  ⟨bundle, ⟨failure.file, failure.error.position⟩, .malformedCall failure.error.message⟩

/-- The issue of a key that is in use but that the file does not define. -/
def ofMissing (bundle : Bundle) (bundleFile : String) (used : UsedKey) : Issue :=
  ⟨bundle, used.first.location,
    .missing used.first.key.propertiesKey used.first.sourceLine used.others bundleFile⟩

/-- The issue of a defined key that is not in use. -/
def ofObsolete (bundle : Bundle) (defined : DefinedKeys) (key : String) : Issue :=
  ⟨bundle, ⟨defined.file, ⟨(defined.lineOf? key).getD 1, 1⟩⟩, .obsolete key⟩

/-- The issue of a repeated definition. -/
def ofRepeated (bundle : Bundle) (file : String) (definition : RepeatedKey) : Issue :=
  ⟨bundle, ⟨file, ⟨definition.line, 1⟩⟩, .repeated definition.key definition.firstLine⟩

/-- All issues of a bundle, rule by rule. -/
def ofBundle (bundle : Bundle) (failures : List FileExtractionError) (used : UsedKeys)
    (defined : DefinedKeys) : List Issue :=
  let comparison := Comparison.of used defined
  failures.map (ofExtractionError bundle)
    ++ comparison.missing.map (ofMissing bundle defined.file)
    ++ comparison.obsolete.map (ofObsolete bundle defined)
    ++ defined.repeated.map (ofRepeated bundle defined.file)

end Issue

end LocaleKeys
