import LocaleKeys.Bundle

/-!
# Command line arguments

The command line names a command, `check` or `init`, and what belongs to it. Arguments are taken
one by one. A value is judged only when it is certain that no further value belongs with it, that
is when the next option, or a value of another kind, or the end has come; a word that looks like
an option and is none is reported before that.
-/

namespace LocaleKeys.CommandLine

/-- The form of a report. -/
inductive Format where
  | text
  | json
deriving DecidableEq

/-- The name of a form. -/
def Format.name : Format → String
  | .text => "text"
  | .json => "json"

/-- The form of a name. -/
def Format.ofName? (name : String) : Option Format :=
  [Format.text, .json].find? (·.name == name)

/-- The arguments of `check`. -/
structure CheckArguments where
  bundles : List Bundle
  root? : Option String
  sourceRoot? : Option String
  langBundle? : Option String
  menuBundle? : Option String
  format? : Option Format
  verbose : Bool
deriving DecidableEq

namespace CheckArguments

/-- No argument is given. -/
def none : CheckArguments := ⟨[], .none, .none, .none, .none, .none, false⟩

/-- The root directory of the project. -/
def root (arguments : CheckArguments) : String := arguments.root?.getD "."

/-- The form of the report. -/
def format (arguments : CheckArguments) : Format := arguments.format?.getD .text

end CheckArguments

/-- A command. -/
inductive Command where
  | check (arguments : CheckArguments)
  | init
deriving DecidableEq

/-- More is asked for than errors and results. -/
def Command.verbose : Command → Bool
  | .check arguments => arguments.verbose
  | .init => false

/-- Why a command line names no command to carry out. -/
inductive UsageError where
  /-- A value is missing or is none of those that are possible. -/
  | invalidValue
  /-- There is no such option or argument. -/
  | unknownArgument
  /-- There is no such command. -/
  | invalidSubcommand
  /-- An option that may be given once is given again. -/
  | argumentConflict
  /-- An option that takes no value has one. -/
  | tooManyValues
  /-- The command line asks for help. -/
  | help
  /-- The command line asks for the version. -/
  | version
deriving DecidableEq

/-- An option of `check` that takes a value. -/
inductive ValueOption where
  | root
  | sourceRoot
  | langBundle
  | menuBundle
  | format
deriving DecidableEq

namespace ValueOption

/-- All options that take a value. -/
def all : List ValueOption := [.root, .sourceRoot, .langBundle, .menuBundle, .format]

/-- The name of an option, without its hyphens. -/
def name : ValueOption → String
  | .root => "root"
  | .sourceRoot => "source-root"
  | .langBundle => "lang-bundle"
  | .menuBundle => "menu-bundle"
  | .format => "format"

end ValueOption

/-- Values that are not judged yet. -/
inductive Pending where
  | nothing
  /-- An option, and its value as soon as it has come. -/
  | option (which : ValueOption) (value? : Option String)
  /-- Names of bundles. -/
  | bundles (names : List String)
deriving DecidableEq

/-- The arguments of `check` that have been read up to some place. -/
structure CheckReading where
  arguments : CheckArguments
  pending : Pending
  /-- Only names of bundles may come, after two hyphens that stand alone. -/
  namesOnly : Bool
deriving DecidableEq

namespace CheckReading

/-- No argument has been read. -/
def start : CheckReading := ⟨.none, .nothing, false⟩

/-- A path as a value. -/
def path? (value : String) : Except UsageError (Option String) :=
  if value.isEmpty then .error .invalidValue else .ok (some value)

/-- The arguments with the value of an option. -/
def assign (arguments : CheckArguments) (which : ValueOption) (value : String) :
    Except UsageError CheckArguments :=
  match which with
  | .root =>
    if arguments.root?.isSome then .error .argumentConflict
    else (path? value).map fun path => { arguments with root? := path }
  | .sourceRoot =>
    if arguments.sourceRoot?.isSome then .error .argumentConflict
    else (path? value).map fun path => { arguments with sourceRoot? := path }
  | .langBundle =>
    if arguments.langBundle?.isSome then .error .argumentConflict
    else (path? value).map fun path => { arguments with langBundle? := path }
  | .menuBundle =>
    if arguments.menuBundle?.isSome then .error .argumentConflict
    else (path? value).map fun path => { arguments with menuBundle? := path }
  | .format =>
    if arguments.format?.isSome then .error .argumentConflict
    else
      match Format.ofName? value with
      | some format => .ok { arguments with format? := some format }
      | .none => .error .invalidValue

/-- The bundles of names. -/
def bundlesOf (names : List String) : Except UsageError (List Bundle) :=
  match names.mapM Bundle.ofName? with
  | some bundles => .ok bundles
  | none => .error .invalidValue

/-- The reading after its values are judged. -/
def settle (reading : CheckReading) : Except UsageError CheckReading :=
  match reading.pending with
  | .nothing => .ok reading
  | .option _ none => .error .invalidValue
  | .option which (some value) =>
    (assign reading.arguments which value).map fun arguments =>
      { reading with arguments := arguments, pending := .nothing }
  | .bundles names =>
    (bundlesOf names).map fun bundles =>
      { reading with
        arguments := { reading.arguments with bundles := reading.arguments.bundles ++ bundles }
        pending := .nothing }

/-- The reading after the flag for all details. -/
def beVerbose (reading : CheckReading) : Except UsageError CheckReading :=
  reading.settle.bind fun reading =>
    if reading.arguments.verbose then .error .argumentConflict
    else .ok { reading with arguments := { reading.arguments with verbose := true } }

/-- The reading after the flag for help. -/
def askHelp (reading : CheckReading) : Except UsageError CheckReading :=
  reading.settle.bind fun _ => .error .help

/-- The reading after an option that takes a value, which may be attached to it. -/
def takeOption (reading : CheckReading) (which : ValueOption) (attached? : Option String) :
    Except UsageError CheckReading :=
  reading.settle.bind fun reading =>
    match attached? with
    | none => .ok { reading with pending := .option which none }
    | some value =>
      (assign reading.arguments which value).map fun arguments =>
        { reading with arguments := arguments }

/-- The name of an option, and the value that an equals sign attaches to it. -/
def splitAttached (text : List Char) : List Char × Option String :=
  let name := text.takeWhile (· != '=')
  match text.drop name.length with
  | [] => (name, none)
  | _ :: value => (name, some (String.ofList value))

/-- The reading after an option with two hyphens, of which the text is given without them. -/
def takeLong (reading : CheckReading) (text : List Char) : Except UsageError CheckReading :=
  let (name, attached?) := splitAttached text
  match ValueOption.all.find? (·.name.toList == name) with
  | some which => reading.takeOption which attached?
  | none =>
    if name = "verbose".toList then
      if attached?.isSome then .error .tooManyValues else reading.beVerbose
    else if name = "help".toList then
      if attached?.isSome then .error .tooManyValues else reading.askHelp
    else .error .unknownArgument

/-- The reading after a flag of one letter. -/
def takeShort (reading : CheckReading) (letter : Char) : Except UsageError CheckReading :=
  if letter = 'v' then reading.beVerbose
  else if letter = 'h' then reading.askHelp
  else .error .unknownArgument

/-- The reading after the name of a bundle. -/
def takeName (reading : CheckReading) (name : String) : Except UsageError CheckReading :=
  match reading.pending with
  | .bundles names => .ok { reading with pending := .bundles (names ++ [name]) }
  | _ => reading.settle.map fun reading => { reading with pending := .bundles [name] }

/-- The reading after a word that is no option. -/
def takeWord (reading : CheckReading) (word : String) : Except UsageError CheckReading :=
  match reading.pending with
  | .option which none => .ok { reading with pending := .option which (some word) }
  | _ => reading.takeName word

/-- The reading after one more argument. -/
def next (reading : CheckReading) (argument : String) : Except UsageError CheckReading :=
  if reading.namesOnly then reading.takeName argument
  else
    match argument.toList with
    | ['-', '-'] => .ok { reading with namesOnly := true }
    | '-' :: '-' :: text => reading.takeLong text
    | '-' :: letter :: letters => (letter :: letters).foldlM takeShort reading
    | _ => reading.takeWord argument

end CheckReading

/-- The arguments of `check` from the words behind it. -/
def readCheck (words : List String) : Except UsageError CheckArguments :=
  (words.foldlM CheckReading.next .start).bind fun reading => reading.settle.map (·.arguments)

/-- Judges the words behind `init`, which takes no argument but the flag for help. -/
def readInit : List String → Except UsageError Unit
  | [] => .ok ()
  | word :: words =>
    match word.toList with
    | ['-', '-'] => if words.isEmpty then .ok () else .error .unknownArgument
    | '-' :: '-' :: text =>
      match CheckReading.splitAttached text with
      | (name, attached?) =>
        if name ≠ "help".toList then .error .unknownArgument
        else if attached?.isSome then .error .tooManyValues
        else .error .help
    | '-' :: 'h' :: _ => .error .help
    | _ => .error .unknownArgument

/-- The names of commands. -/
def commandNames : List String := ["check", "init", "help"]

/-- Judges the words behind `help`, which ask about a command. -/
def readHelp : List String → UsageError
  | [] => .help
  | [name] => if commandNames.contains name then .help else .invalidSubcommand
  | _ => .invalidSubcommand

/-- Judges an option in front of a command, of which the text is given without two hyphens. -/
def judgeLong (text : List Char) : UsageError :=
  let (name, attached?) := CheckReading.splitAttached text
  if name = "help".toList then if attached?.isSome then .tooManyValues else .help
  else if name = "version".toList then if attached?.isSome then .tooManyValues else .version
  else .unknownArgument

/-- The command that a command line names, if it names one. -/
def read : List String → Except UsageError (Option Command)
  | [] => .ok none
  | "check" :: words => (readCheck words).map fun arguments => some (.check arguments)
  | "init" :: words => (readInit words).map fun _ => some .init
  | "help" :: words => .error (readHelp words)
  | word :: words =>
    match word.toList with
    | ['-', '-'] =>
      match words with
      | [] => .ok none
      | name :: _ =>
        .error (if commandNames.contains name then .unknownArgument else .invalidSubcommand)
    | '-' :: '-' :: text => .error (judgeLong text)
    | '-' :: letter :: _ =>
      .error (if letter = 'h' then .help else if letter = 'V' then .version else .unknownArgument)
    | _ => .error .invalidSubcommand

end LocaleKeys.CommandLine
