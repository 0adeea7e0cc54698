import Containers.Vector.Basic

/-! How an unsorted run of pairs becomes a sorted one: a stable sort by key,
and for a map the removal of all but the first pair with each key. -/
namespace Containers.Flat
variable {κ ν : Type}

/-- The pairs in the order of their keys; pairs with equal keys stay in the
order they came in. -/
def sortByKey [Ord κ] (items : Array (κ × ν)) : Array (κ × ν) :=
  (items.toList.mergeSort fun x y => (compare x.1 y.1).isLE).toArray

variable [BEq κ]

/-- Reads `count` pairs from `read` on. One whose key differs from that of the
pair kept last, at `kept`, is swapped to the place behind it. Answers the pairs
and the place of the pair kept last. -/
def gather (items : Array (κ × ν)) (kept read : Nat) : Nat → Array (κ × ν) × Nat
  | 0 => (items, kept)
  | count + 1 =>
    match items[kept]?, items[read]? with
    | some last, some pair =>
      if pair.1 != last.1 then gather (items.swapIfInBounds (kept + 1) read) (kept + 1) (read + 1) count
      else gather items kept (read + 1) count
    | _, _ => (items, kept)

/-- Keeps the first pair of every run of equal keys: the pairs to keep are
gathered at the front, and the rest is cut off. -/
def dropRepeats (items : Array (κ × ν)) : Array (κ × ν) :=
  if items.size ≤ 1 then items
  else
    let (gathered, kept) := gather items 0 1 (items.size - 1)
    gathered.extract 0 (kept + 1)

end Containers.Flat
