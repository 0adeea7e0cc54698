import Containers.Tree.Descent

/-! Visiting every node before the nodes below it, left before right. -/
namespace Containers

/-- A visit: the node, on which side it hangs unless it is the root, and how
many links lead down to it. -/
structure Visit (α : Type) where
  node : Node α
  side : Option Side
  depth : Nat

namespace Tree
variable {α : Type}

/-- The visits of a subtree that is at most so many nodes deep. -/
def visitsWithin (tree : Tree α) : Nat → Link → Nat → Except Fault (List (Visit α))
  | _, none, _ => .ok []
  | 0, some _, _ => .error .endless
  | limit + 1, some slot, depth => do
    let side : Option Side ← match ← tree.parent (some slot) with
      | none => pure none
      | some above => do
        if (← tree.child .left (some above)) = some slot then pure (some .left)
        else pure (some .right)
    let node ← tree.nodeAt slot
    let below ← visitsWithin tree limit node.links.left (depth + 1)
    let beside ← visitsWithin tree limit node.links.right (depth + 1)
    return ⟨node, side, depth⟩ :: (below ++ beside)

/-- The visits of the whole tree. -/
def traverse (tree : Tree α) : Except Fault (List (Visit α)) :=
  tree.visitsWithin tree.stepLimit tree.root 0

end Tree

end Containers
