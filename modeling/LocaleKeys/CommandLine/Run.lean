import LocaleKeys.CommandLine.Arguments
import LocaleKeys.Report.Json
import LocaleKeys.Report.Text

/-!
# Carrying out commands

What a command comes to is what it writes and logs, how it ends, and the tree that it leaves.
`check` leaves the tree as it is and reports on it; `init` adds a configuration file to a tree
without one.
-/

namespace LocaleKeys

/-- How a command ends. -/
inductive ExitStatus where
  /-- There is nothing to object to. -/
  | clean
  /-- There are issues. -/
  | issuesFound
  /-- The command could not be carried out. -/
  | failed
deriving DecidableEq

/-- The number that stands for an end. -/
def ExitStatus.code : ExitStatus → Nat
  | .clean => 0
  | .issuesFound => 1
  | .failed => 2

/-- How a command ends, and what it writes. -/
structure Outcome where
  status : ExitStatus
  /-- What it writes as its result. -/
  output : List Char
  /-- What it logs, in order. -/
  log : List LogEvent
  /-- What it writes about difficulties. -/
  complaints : List Char
deriving DecidableEq

namespace Outcome

/-- What a command writes besides its result: the events that are shown, and then what it writes
about difficulties. -/
def errorText (verbose : Bool) (outcome : Outcome) : List Char :=
  Report.unlines ((outcome.log.filter (·.isShown verbose)).map LogEvent.line) ++ outcome.complaints

/-- The outcome of a command that could not be carried out. -/
def failure (message : String) : Outcome where
  status := .failed
  output := []
  log := []
  complaints := "Error: ".toList ++ message.toList ++ ['\n']

/-- The outcome of a check that came to a report. -/
def ofReport (colors : Bool) (arguments : CommandLine.CheckArguments) (log : List LogEvent)
    (report : CheckReport) : Outcome where
  status := if report.issues.isEmpty then .clean else .issuesFound
  output :=
    match arguments.format with
    | .text => Report.text colors report
    | .json => Report.json report
  log := log
  complaints := Report.skippedWarning colors arguments.verbose report

/-- The outcome of a check. -/
def ofCheck (colors : Bool) (arguments : CommandLine.CheckArguments) (log : List LogEvent) :
    Except CheckError CheckReport → Outcome
  | .ok report => ofReport colors arguments log report
  | .error error => { failure error.message with log := log }

/-- The outcome of making a configuration file. -/
def ofInit (colors : Bool) : Outcome where
  status := .clean
  output :=
    (Style.ofColor .green).paint colors Report.successMark ++ ' ' ::
      (Style.ofColor .green).paint colors ("Created ".toList ++ Config.fileName.toList) ++ ['\n']
  log := []
  complaints := []

end Outcome

namespace CommandLine

/-- Where to look for the project that the arguments name, and their settings. -/
def CheckArguments.options (arguments : CheckArguments) : CheckOptions where
  root := .ofText arguments.root
  sourceRoot? := arguments.sourceRoot?
  langBundle? := arguments.langBundle?
  menuBundle? := arguments.menuBundle?

/-- The report that arguments ask for. -/
def check (tree : FileTree) (arguments : CheckArguments) : Except CheckError CheckReport :=
  CheckReport.of tree arguments.options arguments.bundles

/-- What the check that arguments ask for logs. -/
def checkLog (tree : FileTree) (arguments : CheckArguments) : List LogEvent :=
  CheckReport.log tree arguments.options arguments.bundles

/-- The tree with the standard settings in its configuration file, unless it has such a file. -/
def init (colors : Bool) (tree : FileTree) : FileTree × Outcome :=
  let file := Path.ofText Config.fileName
  if tree.contains file then (tree, .failure s!"{Config.fileName} already exists")
  else (tree.write file (.text Config.standard.print), .ofInit colors)

/-- The tree that a command leaves, and what the command comes to. -/
def run (colors : Bool) (tree : FileTree) : Command → FileTree × Outcome
  | .check arguments =>
    (tree, .ofCheck colors arguments (checkLog tree arguments) (check tree arguments))
  | .init => init colors tree

end CommandLine

end LocaleKeys
