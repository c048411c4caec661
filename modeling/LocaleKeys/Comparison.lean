import LocaleKeys.DefinedKeys
import LocaleKeys.UsedKeys

/-!
# Used keys against defined keys

The two differences between the keys that are in use and the keys that the base resource file
defines: keys to add to the file, and keys to take out of it.
-/

namespace LocaleKeys

/-- How used and defined keys differ. -/
structure Comparison where
  /-- The keys in use that are not defined, in key order. -/
  missing : List UsedKey
  /-- The stored forms of the defined keys that are not in use, in order. -/
  obsolete : List String
deriving DecidableEq

namespace Comparison

/-- The differences between used and defined keys. -/
def of (used : UsedKeys) (defined : DefinedKeys) : Comparison where
  missing := used.values.filter fun key => !defined.contains key.first.key.propertiesKey
  obsolete := defined.lines.keys.filter fun key =>
    !used.keys.any fun identity => identity.propertiesKey == key

/-- There is no difference. -/
def isClean (comparison : Comparison) : Bool :=
  comparison.missing.isEmpty && comparison.obsolete.isEmpty

end Comparison

end LocaleKeys
