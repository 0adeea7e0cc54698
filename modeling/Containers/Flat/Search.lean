import Containers.Vector.Basic

/-! Where a key belongs in a sorted run of pairs. Keys are compared by their
order alone, so keys that compare equal may still be spelled differently. -/
namespace Containers.Flat
variable {α κ ν : Type}

/-- The first place from `low` on, and at most `high`, whose element fails the
test, if those that pass come first. -/
def bisect (passes : α → Bool) (items : Array α) (low high : Nat) : Nat :=
  if low < high then
    match items[(low + high) / 2]? with
    | none => low
    | some x =>
      if passes x then bisect passes items ((low + high) / 2 + 1) high
      else bisect passes items low ((low + high) / 2)
  else low
termination_by high - low

variable [Ord κ]

/-- The place of the first pair whose key is not below `k`. -/
def lowerBound (k : κ) (items : Array (κ × ν)) : Nat :=
  bisect (fun pair => (compare pair.1 k).isLT) items 0 items.size

/-- The place of the first pair whose key is above `k`. -/
def upperBound (k : κ) (items : Array (κ × ν)) : Nat :=
  bisect (fun pair => (compare pair.1 k).isLE) items 0 items.size

end Containers.Flat
