import LocaleKeys.Bundle
import LocaleKeys.Glob.Pattern

/-!
# Configuration

The settings of a project, with their defaults, and what makes settings unusable: a faulty
pattern, or no file extension to look for.
-/

namespace LocaleKeys

/-- The settings of a project. Paths are relative to the directory of the configuration file. -/
structure Config where
  sourceRoot : String
  includes : List String
  ignores : List String
  sourceExtensions : List String
  markupExtensions : List String
  langBundle : String
  menuBundle : String
deriving DecidableEq

namespace Config

/-- The settings of a project without a configuration file. -/
def standard : Config where
  sourceRoot := "src/main"
  includes := []
  ignores := []
  sourceExtensions := ["java"]
  markupExtensions := ["fxml"]
  langBundle := "src/main/resources/l10n/JabRef_en.properties"
  menuBundle := "src/main/resources/l10n/Menu_en.properties"

/-- The path of the base resource file of a bundle. -/
def bundlePath (config : Config) : Bundle → String
  | .lang => config.langBundle
  | .menu => config.menuBundle

/-- Why settings are unusable. -/
inductive Fault where
  | ignorePattern (pattern : String) (error : Glob.PatternError)
  | includePattern (pattern : String) (error : Glob.PatternError)
  | noSourceExtension
  | noMarkupExtension
deriving DecidableEq

/-- The report of unusable settings. -/
def Fault.message : Fault → String
  | .ignorePattern pattern error =>
    s!"Invalid glob pattern in 'ignores': \"{pattern}\": {error.message}"
  | .includePattern pattern error =>
    s!"Invalid glob pattern in 'includes': \"{pattern}\": {error.message}"
  | .noSourceExtension => "'sourceExtensions' must name at least one extension"
  | .noMarkupExtension => "'markupExtensions' must name at least one extension"

/-- The fault of a text as a pattern. -/
def patternError? (pattern : String) : Option Glob.PatternError :=
  match Glob.Pattern.parse pattern.toList with
  | .ok _ => none
  | .error error => some error

/-- The first fault of the settings. An ignore has to be a pattern in any case, an include only if
it has a wildcard. -/
def fault? (config : Config) : Option Fault :=
  let ignore? := config.ignores.findSome? fun pattern =>
    (patternError? pattern).map (.ignorePattern pattern)
  let include? := config.includes.findSome? fun pattern =>
    if Glob.isPatternText pattern.toList then
      (patternError? pattern).map (.includePattern pattern)
    else none
  let extension? :=
    if config.sourceExtensions.isEmpty then some .noSourceExtension
    else if config.markupExtensions.isEmpty then some .noMarkupExtension
    else none
  ignore?.or (include?.or extension?)

end Config

end LocaleKeys
