import LocaleKeys.Project
import LocaleKeys.Report.Style
import LocaleKeys.Text.DisplayWidth

/-!
# Reports for people

Every issue is shown with its location and, if it is known, with the source line, under which a
caret points at the column of the issue. The bars and equals signs in front of what belongs to an
issue stand in one column throughout the report, the gutter, which is as wide as the longest line
number that is shown.
-/

namespace LocaleKeys.Report

/-- The mark of success. -/
def successMark : List Char := ['✓']

/-- The mark of failure. -/
def failureMark : List Char := ['✘']

/-- The number of further usages that are shown of an issue. -/
def usageLimit : Nat := 3

/-- The digits of a number. -/
def digits (n : Nat) : List Char :=
  Nat.toDigits 10 n

/-- A text moved to the end of a column of the given width. -/
def padLeft (width : Nat) (text : List Char) : List Char :=
  List.replicate (width - text.length) ' ' ++ text

/-- The line numbers that are shown. -/
def shownLines (issues : List Issue) : List Nat :=
  (issues.filter (·.sourceLine?.isSome)).map (·.location.position.line)

/-- The width of the gutter. -/
def gutterWidth (issues : List Issue) : Nat :=
  match (shownLines issues).max? with
  | some line => (digits line).length
  | none => 1

/-- The colour of a severity. -/
def severityColor : Severity → Color
  | .error => .red
  | .warning => .yellow

/-- The message of an issue, in quotes if it is a key. -/
def shownMessage (issue : Issue) : List Char :=
  if issue.messageIsKey then '"' :: issue.message.toList ++ ['"'] else issue.message.toList

section

variable (colors : Bool) (gutter : Nat)

/-- A mark at the right of the empty gutter, and what stands behind it. -/
def marked (mark : Char) (rest : List Char) : List Char :=
  padLeft gutter [] ++ ' ' :: (Style.ofColor .blue).paint colors [mark] ++ rest

/-- A remark on an issue, under its label. -/
def remark (style : Style) (label : String) (text : List Char) : List Char :=
  marked colors gutter '=' (' ' :: style.paint colors label.toList ++ ' ' :: text)

/-- The first line of an issue: what is wrong, and by which rule. -/
def headLine (issue : Issue) : List Char :=
  (Style.strongColor (severityColor issue.severity)).paint colors issue.severity.name.toList
    ++ ": ".toList ++ shownMessage issue ++ "  ".toList
    ++ (Style.faintColor .cyan).paint colors issue.rule.name.toList ++ " ".toList
    ++ Style.faint.paint colors ('[' :: issue.bundle.name.toList ++ [']'])

/-- The location of an issue. -/
def locationLine (issue : Issue) : List Char :=
  "  ".toList ++ (Style.ofColor .blue).paint colors "-->".toList ++ ' ' ::
    issue.location.toText.toList

/-- The columns in front of the place of an issue on its source line. -/
def caretOffset (issue : Issue) (sourceLine : List Char) : Nat :=
  Text.displayWidth (sourceLine.take (issue.location.position.col - 1))

/-- The source line of an issue, with a caret below. -/
def sourceLines (issue : Issue) (sourceLine : List Char) : List (List Char) :=
  [marked colors gutter '|' [],
    (Style.ofColor .blue).paint colors (padLeft gutter (digits issue.location.position.line))
      ++ ' ' :: (Style.ofColor .blue).paint colors ['|'] ++ ' ' :: sourceLine,
    marked colors gutter '|' <|
      ' ' :: padLeft (caretOffset issue sourceLine) []
        ++ (Style.ofColor (severityColor issue.severity)).paint colors ['^']]

/-- The further usages of an issue that are shown, and how many are not. -/
def usageLines (usages : List Location) : List (List Char) :=
  let shown := (usages.take usageLimit).map fun usage => usage.toText.toList
  let more := usages.length - shown.length
  let ends :=
    if more = 0 then shown
    else shown.dropLast ++ (shown.getLast?.map (· ++ s!" (and {more} more)".toList)).toList
  ends.map (remark colors gutter .strong "used:")

/-- The lines of an issue, the empty one at the end included. -/
def issueLines (issue : Issue) : List (List Char) :=
  [headLine colors issue, locationLine colors issue]
    ++ ((issue.sourceLine?.map (·.toList)).map (sourceLines colors gutter issue)).getD []
    ++ (issue.details?.map fun text => remark colors gutter .strong "note:" text.toList).toList
    ++ (issue.hint?.map fun text =>
        remark colors gutter (.strongColor .cyan) "hint:" text.toList).toList
    ++ usageLines colors gutter issue.usages ++ [[]]

end

/-- A word in the number that goes with a count. -/
def counted (count : Nat) (word : String) : List Char :=
  if count = 1 then word.toList else word.toList ++ ['s']

/-- The last lines of a report with issues: how many there are. -/
def summaryLines (colors : Bool) (issues : List Issue) : List (List Char) :=
  let errors := (issues.filter (·.severity = .error)).length
  let warnings := issues.length - errors
  [[], (Style.ofColor .red).paint colors failureMark ++ ' ' :: digits issues.length
    ++ " problems (".toList ++ digits errors ++ ' ' ::
      (Style.ofColor .red).paint colors (counted errors "error")
    ++ ", ".toList ++ digits warnings ++ ' ' ::
      (Style.ofColor .yellow).paint colors (counted warnings "warning") ++ [')']]

/-- The lines of a report with issues. -/
def issueReport (colors : Bool) (issues : List Issue) : List (List Char) :=
  issues.flatMap (issueLines colors (gutterWidth issues)) ++ summaryLines colors issues

/-- The line of a report without issues. -/
def successLine (colors : Bool) (sourceFiles markupFiles : Nat) : List Char :=
  let sources := digits sourceFiles ++ " source ".toList ++ counted sourceFiles "file"
  let markup :=
    if markupFiles = 0 then []
    else ", ".toList ++ digits markupFiles ++ " markup ".toList ++ counted markupFiles "file"
  (Style.ofColor .green).paint colors successMark ++ ' ' ::
    (Style.ofColor .green).paint colors
      ("Checked ".toList ++ sources ++ markup ++ " - no issues found".toList)

/-- The text of lines, each with its end. -/
def unlines (lines : List (List Char)) : List Char :=
  lines.flatMap (· ++ ['\n'])

/-- The report of a check. -/
def text (colors : Bool) (report : CheckReport) : List Char :=
  unlines <|
    if report.issues.isEmpty then [successLine colors report.sourceFiles report.markupFiles]
    else issueReport colors (Issue.inReportOrder report.issues)

/-- The warning about files that were left out: their number, or one line for each. -/
def skippedWarning (colors verbose : Bool) (report : CheckReport) : List Char :=
  let label := (Style.strongColor .yellow).paint colors "warning:".toList
  if report.skippedCount = 0 then []
  else if verbose then
    unlines <|
      (report.skipped.map fun notice =>
        label ++ " skipped ".toList ++ notice.file.toList ++ ": ".toList ++ notice.reason.toList)
      ++ if report.inaccessible = 0 then []
        else [label ++ ' ' :: digits report.inaccessible
          ++ " path(s) could not be accessed while walking the tree".toList]
  else
    unlines [label ++ ' ' :: digits report.skippedCount
      ++ " file(s) could not be read (use ".toList
      ++ (Style.ofColor .cyan).paint colors "-v".toList ++ " for details)".toList]

end LocaleKeys.Report
