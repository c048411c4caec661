import LocaleKeys.Config.Basic
import LocaleKeys.Json.Printer
import LocaleKeys.Json.Reader

/-!
# Configuration files

A configuration file is a JSON object with a member for each setting. Settings that it leaves out
have their defaults, members of other names are passed over, and a setting may not be given twice.
An array gives the settings by their order instead.
-/

namespace LocaleKeys.Config

/-- A setting, in the order in which an array gives them. -/
inductive Setting where
  | sourceRoot
  | includes
  | ignores
  | sourceExtensions
  | markupExtensions
  | langBundle
  | menuBundle
deriving DecidableEq

namespace Setting

/-- All settings in order. -/
def all : List Setting :=
  [.sourceRoot, .includes, .ignores, .sourceExtensions, .markupExtensions, .langBundle, .menuBundle]

/-- The name of a setting in a configuration file. -/
def name : Setting → String
  | .sourceRoot => "sourceRoot"
  | .includes => "includes"
  | .ignores => "ignores"
  | .sourceExtensions => "sourceExtensions"
  | .markupExtensions => "markupExtensions"
  | .langBundle => "langBundle"
  | .menuBundle => "menuBundle"

/-- The settings after one of them is given the value. There are none if the value is not of the
kind of the setting. -/
def assign? (setting : Setting) (config : Config) (value : Json) : Option Config :=
  let text? := value.text?.map String.ofList
  let texts? := value.texts?.map (·.map String.ofList)
  match setting with
  | .sourceRoot => text?.map fun text => { config with sourceRoot := text }
  | .includes => texts?.map fun texts => { config with includes := texts }
  | .ignores => texts?.map fun texts => { config with ignores := texts }
  | .sourceExtensions => texts?.map fun texts => { config with sourceExtensions := texts }
  | .markupExtensions => texts?.map fun texts => { config with markupExtensions := texts }
  | .langBundle => text?.map fun text => { config with langBundle := text }
  | .menuBundle => text?.map fun text => { config with menuBundle := text }

end Setting

/-- The settings after a member of the object, whose name must be a text. -/
def assignMember? (config : Config) (name : List Nat) (value : Json) : Option Config :=
  (Json.decode? name).bind fun name =>
    match Setting.all.find? (·.name.toList == name) with
    | some setting => setting.assign? config value
    | none => some config

/-- The object gives no setting twice. -/
def givesOnce (members : List (List Nat × Json)) : Bool :=
  Setting.all.all fun setting =>
    (members.filter (·.1 == Json.encode setting.name.toList)).length ≤ 1

/-- The settings that a JSON value gives. -/
def ofJson? : Json → Option Config
  | .object members =>
    if givesOnce members then
      members.foldlM (fun config (name, value) => assignMember? config name value) standard
    else none
  | .array items =>
    if items.length ≤ Setting.all.length then
      (Setting.all.zip items).foldlM (fun config (setting, value) => setting.assign? config value)
        standard
    else none
  | _ => none

/-- The settings in a configuration file of the given text. -/
def parse? (text : List Char) : Option Config :=
  (Json.parse? text).bind ofJson?

/-- The settings as a JSON object. -/
def toJson (config : Config) : Json :=
  let texts (values : List String) := Json.array (values.map Json.ofText)
  .ofMembers
    [("sourceRoot", .ofText config.sourceRoot), ("includes", texts config.includes),
      ("ignores", texts config.ignores), ("sourceExtensions", texts config.sourceExtensions),
      ("markupExtensions", texts config.markupExtensions),
      ("langBundle", .ofText config.langBundle), ("menuBundle", .ofText config.menuBundle)]

/-- The text of a configuration file with the settings. -/
def print (config : Config) : List Char :=
  config.toJson.print

end LocaleKeys.Config
