import LocaleKeys.Json.Printer
import LocaleKeys.Project

/-!
# Reports for programs

The result of a check as one JSON document: the bundles, every issue with all that is known of
it, the files that were left out, and the counts. A source line that is not known, and an empty
list of usages, are left out of an issue.
-/

namespace LocaleKeys.Report

/-- A location as JSON. -/
def locationJson (location : Location) : Json :=
  .ofMembers
    [("file_path", .ofText location.file), ("line", .ofNat location.position.line),
      ("col", .ofNat location.position.col)]

/-- The members of an issue behind its rule and severity. -/
def findingMembers (issue : Issue) : List (String × Json) :=
  let bundle := ("bundle", Json.ofText issue.bundle.name)
  let location := ("location", locationJson issue.location)
  match issue.finding with
  | .malformedCall error => [bundle, location, ("error", .ofText error)]
  | .missing key sourceLine usages bundleFile =>
    [bundle, ("key", .ofText key), location]
      ++ (sourceLine.map fun line => ("source_line", Json.ofText line)).toList
      ++ (if usages.isEmpty then [] else [("usages", .array (usages.map locationJson))])
      ++ [("bundle_file", .ofText bundleFile)]
  | .obsolete key => [bundle, ("key", .ofText key), location]
  | .repeated key firstLine =>
    [bundle, ("key", .ofText key), location, ("first_line", .ofNat firstLine)]

/-- An issue as JSON. -/
def issueJson (issue : Issue) : Json :=
  .ofMembers <|
    [("rule", .ofText issue.rule.name), ("severity", .ofText issue.severity.name)]
      ++ findingMembers issue

/-- A file that was left out as JSON. -/
def skippedJson (notice : SkippedNotice) : Json :=
  .ofMembers [("filePath", .ofText notice.file), ("reason", .ofText notice.reason)]

/-- The result of a check as JSON. -/
def toJson (report : CheckReport) : Json :=
  .ofMembers
    [("bundles", .array (report.bundles.map fun bundle => .ofText bundle.name)),
      ("issues", .array (report.issues.map issueJson)),
      ("skippedFiles", .array (report.skipped.map skippedJson)),
      ("summary", .ofMembers
        [("errors", .ofNat (report.count .error)), ("warnings", .ofNat (report.count .warning)),
          ("sourceFiles", .ofNat report.sourceFiles), ("markupFiles", .ofNat report.markupFiles),
          ("skippedFiles", .ofNat report.skippedCount)])]

/-- The text of the result of a check. -/
def json (report : CheckReport) : List Char :=
  (toJson report).print ++ ['\n']

end LocaleKeys.Report
