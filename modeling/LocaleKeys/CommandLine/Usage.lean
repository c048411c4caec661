import LocaleKeys.CommandLine.Run

/-!
# Help

What is written if the command line names no command to carry out: the help or the version that
it asks for, or what is wrong with it.
-/

namespace LocaleKeys

namespace CommandLine

/-- The name of the program. -/
def programName : String := "localekeys"

/-- The version of the program. -/
def version : String := "0.1.0"

/-- How to use the program. -/
def help : List String :=
  ["A build-time checker for missing and obsolete localization keys",
    "",
    s!"Usage: {programName} [COMMAND]",
    "",
    "Commands:",
    "  check [BUNDLES]...  Check for missing and obsolete localization keys",
    s!"  init                Initialize a new {Config.fileName} configuration file",
    "  help                Print this message",
    "",
    "Arguments of check:",
    "  [BUNDLES]...                 Bundles to check: lang, menu (default: all)",
    "      --root <ROOT>            Project root directory (default: .)",
    "      --source-root <PATH>     Source tree to scan, relative to the project root",
    "      --lang-bundle <PATH>     Base resource file of the message bundle",
    "      --menu-bundle <PATH>     Base resource file of the menu bundle",
    "      --format <FORMAT>        Output format: text, json (default: text)",
    "  -v, --verbose                Enable verbose output",
    "",
    "Options:",
    "  -h, --help     Print help",
    "  -V, --version  Print version"]

/-- What is wrong with a command line. -/
def UsageError.message : UsageError → String
  | .invalidValue => "a value is missing, or is none of the possible values"
  | .unknownArgument => "an argument is unexpected"
  | .invalidSubcommand => "there is no such command"
  | .argumentConflict => "an option cannot be used more than once"
  | .tooManyValues => "an option takes no value"
  | .help => "help is asked for"
  | .version => "the version is asked for"

end CommandLine

namespace Outcome

/-- The outcome of a command line without a command. -/
def ofHelp : Outcome where
  status := .clean
  output := Report.unlines (CommandLine.help.map String.toList)
  log := []
  complaints := []

/-- The outcome of a command line that names no command to carry out. -/
def ofUsageError : CommandLine.UsageError → Outcome
  | .help => ofHelp
  | .version =>
    { ofHelp with output := s!"{CommandLine.programName} {CommandLine.version}\n".toList }
  | error => failure error.message

end Outcome

end LocaleKeys
