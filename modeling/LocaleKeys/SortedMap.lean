/-!
# Maps in key order

A map is the list of its keys and values in increasing order of the keys. `upsert` sets the value
of one key, from its present value if it has one, and leaves all other keys alone.
-/

namespace LocaleKeys

/-- A map from keys to values. -/
structure SortedMap (κ α : Type) where
  /-- The keys and their values, in increasing order of the keys. -/
  toList : List (κ × α)
deriving DecidableEq

namespace SortedMap

variable {κ α : Type} [Ord κ]

/-- The map without keys. -/
def empty : SortedMap κ α := ⟨[]⟩

/-- The value of a key in a list in key order. -/
def findIn? (key : κ) : List (κ × α) → Option α
  | [] => none
  | (k, a) :: rest =>
    match compare key k with
    | .lt => none
    | .eq => some a
    | .gt => findIn? key rest

/-- A list in key order with a new value for a key. A key that is there keeps its place. -/
def upsertIn (key : κ) (value : Option α → α) : List (κ × α) → List (κ × α)
  | [] => [(key, value none)]
  | (k, a) :: rest =>
    match compare key k with
    | .lt => (key, value none) :: (k, a) :: rest
    | .eq => (k, value (some a)) :: rest
    | .gt => (k, a) :: upsertIn key value rest

/-- The value of a key. -/
def find? (map : SortedMap κ α) (key : κ) : Option α :=
  findIn? key map.toList

/-- The map has a value for the key. -/
def contains (map : SortedMap κ α) (key : κ) : Bool :=
  (map.find? key).isSome

/-- The map with a new value for a key, which `value` makes from the present one. -/
def upsert (map : SortedMap κ α) (key : κ) (value : Option α → α) : SortedMap κ α :=
  ⟨upsertIn key value map.toList⟩

/-- The keys in increasing order. -/
def keys (map : SortedMap κ α) : List κ :=
  map.toList.map (·.1)

/-- The values in the order of their keys. -/
def values (map : SortedMap κ α) : List α :=
  map.toList.map (·.2)

/-- The number of keys. -/
def size (map : SortedMap κ α) : Nat :=
  map.toList.length

end SortedMap

end LocaleKeys
