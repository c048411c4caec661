import LocaleKeys.Config.Json
import LocaleKeys.Proofs.Json.RoundTrip

/-!
# Printed settings are read back

A configuration file that is printed for some settings gives these settings (`parse?_print`), since
it has a member for every setting and no other.
-/

namespace LocaleKeys.Config

open Json

theorem texts?_map_ofText (texts : List String) :
    (Json.array (texts.map ofText)).texts? = some (texts.map String.toList) := by
  rw [texts?]
  induction texts with
  | nil => rfl
  | cons text texts ih => simp [text?_ofText, ih]

/-- A member of the name of a setting gives the setting. -/
theorem assignMember?_name (config : Config) (setting : Setting) (value : Json) :
    assignMember? config (encode setting.name.toList) value = setting.assign? config value := by
  have found : Setting.all.find? (·.name.toList == setting.name.toList) = some setting := by
    cases setting <;> decide
  rw [assignMember?, decode?_encode, Option.bind_some, found]

/-- The value that a setting is printed as. -/
def settingJson (config : Config) : Setting → Json
  | .sourceRoot => .ofText config.sourceRoot
  | .includes => .array (config.includes.map .ofText)
  | .ignores => .array (config.ignores.map .ofText)
  | .sourceExtensions => .array (config.sourceExtensions.map .ofText)
  | .markupExtensions => .array (config.markupExtensions.map .ofText)
  | .langBundle => .ofText config.langBundle
  | .menuBundle => .ofText config.menuBundle

theorem toJson_eq (config : Config) :
    config.toJson = .object
      (Setting.all.map fun setting => (encode setting.name.toList, settingJson config setting)) :=
  rfl

/-- No two settings have one name. -/
theorem givesOnce_all (value : Setting → Json) :
    givesOnce (Setting.all.map fun setting => (encode setting.name.toList, value setting))
      = true := by
  rfl

theorem ofJson?_toJson (config : Config) : ofJson? config.toJson = some config := by
  rw [toJson_eq, ofJson?, if_pos (givesOnce_all _), List.foldlM_map]
  simp only [assignMember?_name]
  simp [Setting.all, Setting.assign?, settingJson, text?_ofText, texts?_map_ofText]

theorem printable_toJson (config : Config) : Printable config.toJson := by
  have texts := printable_array_map ofText printable_ofText
  apply printable_ofMembers
  simp [texts]

/-- Settings that are printed are read back. -/
theorem parse?_print (config : Config) : parse? config.print = some config := by
  rw [parse?, Config.print, Json.parse?_print (printable_toJson config), Option.bind_some,
    ofJson?_toJson]

/-- The standard settings are usable. -/
theorem fault?_standard : standard.fault? = none := by
  decide

end LocaleKeys.Config
