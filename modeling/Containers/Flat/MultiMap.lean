import Containers.Flat.Search
import Containers.Flat.Sort

/-! A multimap kept as one sorted run of pairs. Pairs with equal keys lie next
to each other, the oldest first. -/
namespace Containers

/-- A multimap as a vector of pairs in the order of their keys. -/
abbrev FlatMultiMap (κ ν : Type) := Vector (κ × ν)

namespace FlatMultiMap
variable {κ ν : Type} [Ord κ]

/-- The places of the pairs whose key equals `k`: from the first number up to
the second. -/
def equalRange (map : FlatMultiMap κ ν) (k : κ) : Nat × Nat :=
  (Flat.lowerBound k map.items, Flat.upperBound k map.items)

/-- The place of the oldest pair whose key equals `k`. -/
def findIdx? (map : FlatMultiMap κ ν) (k : κ) : Option Nat :=
  let (start, stop) := map.equalRange k
  if start < stop then some start else none

/-- The number of pairs whose key equals `k`. -/
def count (map : FlatMultiMap κ ν) (k : κ) : Nat :=
  let (start, stop) := map.equalRange k
  stop - start

/-- The pairs whose key equals `k`, the oldest first. -/
def getAll (map : FlatMultiMap κ ν) (k : κ) : Array (κ × ν) :=
  let (start, stop) := map.equalRange k
  map.items.extract start stop

/-- The first place from `start` up to `stop` that holds this value. -/
def findValue [BEq ν] (value : ν) (start stop : Nat) : Op (FlatMultiMap κ ν) (Option Nat) := do
  let map ← Op.current
  if start ≤ stop ∧ stop ≤ map.size then
    return ((map.items.extract start stop).findIdx? fun pair => pair.2 == value).map (start + ·)
  else
    throw .outOfRange

variable [Stored κ] [Stored ν]

/-- Files a pair behind all pairs with an equal key and answers its place. -/
def tryInsert (k : κ) (value : ν) : Op (FlatMultiMap κ ν) Nat := do
  let map ← Op.current
  Vector.tryInsert (Flat.upperBound k map.items) (k, value)

/-- Files a pair behind all pairs with an equal key. -/
def insert (k : κ) (value : ν) : Op (FlatMultiMap κ ν) Nat :=
  Op.orAbort (tryInsert k value)

/-- Drops the pair at a place and answers the place of the one behind it. -/
def eraseAt (position : Nat) : Op (FlatMultiMap κ ν) Nat :=
  Vector.erase position

/-- Drops every pair whose key equals `k` and answers how many there were. -/
def erase (k : κ) : Op (FlatMultiMap κ ν) Nat := do
  let map ← Op.current
  let (start, stop) := FlatMultiMap.equalRange map k
  let _ ← Vector.eraseRange start stop
  return stop - start

/-- Begins anew with these pairs, all of which are kept. -/
def renewFrom (pairs : List (κ × ν)) : Op (FlatMultiMap κ ν) Unit :=
  Vector.renew do
    Vector.extend pairs
    Storage.rewrite Flat.sortByKey

end FlatMultiMap

end Containers
