import Containers.Flat.Search
import Containers.Flat.Sort

/-! A map kept as one sorted run of pairs with one pair for each key. Inserting
a key that is present changes nothing: the first pair is kept. -/
namespace Containers

/-- A map as a vector of pairs in the order of their keys. -/
abbrev FlatMap (κ ν : Type) := Vector (κ × ν)

namespace FlatMap
variable {κ ν : Type} [Ord κ]

/-- The place of the pair whose key equals `k`. -/
def findIdx? (map : FlatMap κ ν) (k : κ) : Option Nat :=
  let i := Flat.lowerBound k map.items
  match map.items[i]? with
  | some pair => if compare pair.1 k = .eq then some i else none
  | none => none

/-- The value filed under `k`. -/
def get? (map : FlatMap κ ν) (k : κ) : Option ν :=
  (map.findIdx? k).bind fun i => (map.items[i]?).map Prod.snd

/-- Overwrites the value filed under `k` and answers the old one. -/
def setValue (k : κ) (value : ν) : Op (FlatMap κ ν) (Option ν) := do
  let map ← Op.current
  match map.findIdx? k with
  | none => return none
  | some i =>
    Storage.rewrite fun items => items.modify i fun pair => (pair.1, value)
    return (map.items[i]?).map Prod.snd

variable [Stored κ] [Stored ν]

/-- Files a pair unless the pair at the place of its key has an equal key;
answers the place and whether the pair is new. -/
def tryInsert [BEq κ] (k : κ) (value : ν) : Op (FlatMap κ ν) (Nat × Bool) := do
  let map ← Op.current
  let i := Flat.lowerBound k map.items
  if (map.items[i]?).any (·.1 == k) then
    return (i, false)
  else
    let i ← Vector.tryInsert i (k, value)
    return (i, true)

/-- Files a pair unless its key is present. -/
def insert [BEq κ] (k : κ) (value : ν) : Op (FlatMap κ ν) (Nat × Bool) :=
  Op.orAbort (tryInsert k value)

/-- Drops the pair at a place and answers the place of the one behind it. -/
def eraseAt (position : Nat) : Op (FlatMap κ ν) Nat :=
  Vector.erase position

/-- Drops the pair filed under `k` and answers how many were dropped. -/
def erase (k : κ) : Op (FlatMap κ ν) Nat := do
  let map ← Op.current
  match map.findIdx? k with
  | some i =>
    let _ ← Vector.erase i
    return 1
  | none => return 0

/-- Takes out the pair filed under `k`. -/
def remove (k : κ) : Op (FlatMap κ ν) (Option (κ × ν)) := do
  let map ← Op.current
  match map.findIdx? k with
  | some i => some <$> Vector.remove i
  | none => return none

/-- Begins anew with these pairs, of which the first with each key counts. -/
def renewFrom [BEq κ] (pairs : List (κ × ν)) : Op (FlatMap κ ν) Unit :=
  Vector.renew do
    Vector.extend pairs
    Storage.rewrite fun items => Flat.dropRepeats (Flat.sortByKey items)

end FlatMap

end Containers
