/-!
# Resource bundles

Keys live in two namespaces, each with its own base resource file: messages and menu titles.
Keys of different bundles are never compared with each other.
-/

namespace LocaleKeys

/-- The namespace a key belongs to. -/
inductive Bundle where
  /-- Messages, asked for by `Localization.lang(...)` and by markup. -/
  | lang
  /-- Menu titles, asked for by `Localization.menuTitle(...)`. -/
  | menu
deriving DecidableEq

namespace Bundle

/-- Both bundles, in the order in which they are checked. -/
def all : List Bundle := [.lang, .menu]

/-- The name of the bundle on the command line and in reports. -/
def name : Bundle → String
  | .lang => "lang"
  | .menu => "menu"

/-- The bundle of a name. -/
def ofName? (name : String) : Option Bundle :=
  all.find? (·.name == name)

/-- The method of the class `Localization` that asks for a key of the bundle. -/
def method : Bundle → String
  | .lang => "lang"
  | .menu => "menuTitle"

/-- Only messages are referenced from markup documents. -/
def readsMarkup : Bundle → Bool
  | .lang => true
  | .menu => false

/-- The rank of a bundle in the order messages before menu titles. -/
def rank : Bundle → Nat
  | .lang => 0
  | .menu => 1

instance : Ord Bundle := ⟨fun a b => compare a.rank b.rank⟩

/-- The first bundle is not behind the second. -/
def before (a b : Bundle) : Bool :=
  (compare a b).isLE

/-- Bundles in increasing order, each once. -/
def sorted (bundles : List Bundle) : List Bundle :=
  (bundles.mergeSort before).eraseReps

end Bundle

end LocaleKeys
