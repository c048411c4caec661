/-!
# The log

What a command meets on its way is logged: every event has a level, a message and named values. All
events are logged, whoever reads the log chooses which of them to show. They are shown in front of
what a command writes about difficulties.
-/

namespace LocaleKeys

/-- How serious an event is, from the most serious one to the least. -/
inductive LogLevel where
  | error
  | warning
  | info
  | debug
deriving DecidableEq

namespace LogLevel

/-- The rank of a level in the order of seriousness. -/
def rank : LogLevel → Nat
  | .error => 0
  | .warning => 1
  | .info => 2
  | .debug => 3

/-- The name of a level, moved to the end of its column. -/
def name : LogLevel → String
  | .error => "ERROR"
  | .warning => " WARN"
  | .info => " INFO"
  | .debug => "DEBUG"

/-- The least serious level that is shown: errors only, unless more is asked for. -/
def limit (verbose : Bool) : LogLevel :=
  if verbose then .debug else .error

end LogLevel

/-- Something that a command meets on its way. -/
structure LogEvent where
  level : LogLevel
  message : String
  /-- The values that go with the message, each with its name. -/
  fields : List (String × String)
deriving DecidableEq

namespace LogEvent

/-- The event is shown. -/
def isShown (verbose : Bool) (event : LogEvent) : Bool :=
  decide (event.level.rank ≤ (LogLevel.limit verbose).rank)

/-- The line that shows an event, without colours. -/
def line (event : LogEvent) : List Char :=
  event.level.name.toList ++ ' ' :: event.message.toList
    ++ event.fields.flatMap fun (name, value) => ' ' :: name.toList ++ '=' :: value.toList

end LogEvent

end LocaleKeys
