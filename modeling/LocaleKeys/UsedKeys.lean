import LocaleKeys.Bundle
import LocaleKeys.Key
import LocaleKeys.SortedMap
import LocaleKeys.Source.Position

/-!
# Keys in use

A `Usage` is one place that asks for a key. Usages of the same key of the same bundle are
identified, whatever their places; `UsedKeys` keeps each key once, with its first usage and the
locations of all further ones.
-/

namespace LocaleKeys

/-- A key that code or markup asks for. -/
structure Usage where
  location : Location
  key : Key
  bundle : Bundle
  /-- The line of the call, if the key comes from a call site. -/
  sourceLine : Option String
deriving DecidableEq

/-- What a usage is identified by. -/
structure Usage.Identity where
  propertiesKey : String
  bundle : Bundle
deriving DecidableEq

/-- Usages are ordered by the stored form of the key, then by bundle. -/
instance : Ord Usage.Identity :=
  ⟨fun a b => (compare a.propertiesKey b.propertiesKey).then (compare a.bundle b.bundle)⟩

/-- The key as it is compared, and its bundle. -/
def Usage.identity (usage : Usage) : Usage.Identity :=
  ⟨usage.key.propertiesKey, usage.bundle⟩

/-- The usages of one key of one bundle. -/
structure UsedKey where
  /-- The usage that stands for the key. -/
  first : Usage
  /-- The locations of the later usages, in order. -/
  others : List Location
deriving DecidableEq

/-- The used keys with a further usage of the key, if there are usages of it already. -/
def UsedKey.withUsage (usage : Usage) : Option UsedKey → UsedKey
  | none => ⟨usage, []⟩
  | some used => ⟨used.first, used.others ++ [usage.location]⟩

/-- The keys in use, each with its usages. -/
abbrev UsedKeys := SortedMap Usage.Identity UsedKey

namespace UsedKeys

/-- The used keys after a further usage. -/
def insert (used : UsedKeys) (usage : Usage) : UsedKeys :=
  used.upsert usage.identity (UsedKey.withUsage usage)

/-- The used keys after further usages, in order. -/
def insertAll (used : UsedKeys) (usages : List Usage) : UsedKeys :=
  usages.foldl insert used

/-- The usages that stand for the keys, in key order. -/
def firsts (used : UsedKeys) : List Usage :=
  used.values.map (·.first)

/-- The locations of the usages of a key but the first. -/
def otherLocations (used : UsedKeys) (identity : Usage.Identity) : List Location :=
  ((used.find? identity).map (·.others)).getD []

end UsedKeys

end LocaleKeys
