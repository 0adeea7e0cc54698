import Containers.Tree.Basic

/-! Walks along the links of a tree: where a key is or belongs, the ends of the
key order, the next node in it, and the size of a subtree. A walk that took
more steps than there are nodes has run in a circle, which is a fault. -/
namespace Containers

/-- Where a key is, or where a node for it would hang. -/
inductive Place where
  | found (slot : Nat)
  | vacant (parent : Link) (side : Side)

namespace Tree
variable {α κ : Type}

/-- Looks for a key from a link on, which hangs on `side` below `parent`. -/
def locateFrom [Keyed α κ] [Ord κ] (tree : Tree α) (k : κ) :
    Nat → (link parent : Link) → Side → Except Fault Place
  | 0, _, _, _ => .error .endless
  | _ + 1, none, parent, side => .ok (.vacant parent side)
  | steps + 1, some slot, _, _ => do
    match compare (← tree.keyAt slot) k with
    | .lt => locateFrom tree k steps (← tree.child .right (some slot)) (some slot) .right
    | .gt => locateFrom tree k steps (← tree.child .left (some slot)) (some slot) .left
    | .eq => return .found slot

/-- Looks for a key from the root on. -/
def locate [Keyed α κ] [Ord κ] (tree : Tree α) (k : κ) : Except Fault Place :=
  tree.locateFrom k tree.stepLimit tree.root none .right

/-- The slot that holds a key. -/
def find? [Keyed α κ] [Ord κ] (tree : Tree α) (k : κ) : Except Fault Link := do
  match ← tree.locate k with
  | .found slot => return some slot
  | .vacant _ _ => return none

/-- The value filed under a key. -/
def get? [Keyed α κ] [Ord κ] (tree : Tree α) (k : κ) : Except Fault (Option α) :=
  tree.value? <$> tree.find? k

/-- Whether a key is present. -/
def contains [Keyed α κ] [Ord κ] (tree : Tree α) (k : κ) : Except Fault Bool :=
  Option.isSome <$> tree.find? k

/-- Goes down on one side as far as there are nodes. -/
def outermostFrom (tree : Tree α) (side : Side) : Nat → Nat → Except Fault Nat
  | 0, _ => .error .endless
  | steps + 1, slot => do
    match ← tree.child side (some slot) with
    | none => return slot
    | some lower => outermostFrom tree side steps lower

/-- The last node on one side of the subtree in a slot. -/
def outermost (tree : Tree α) (side : Side) (slot : Nat) : Except Fault Nat :=
  tree.outermostFrom side tree.stepLimit slot

/-- The node at one end of the key order, if there is any. -/
def extreme (tree : Tree α) (side : Side) : Except Fault Link :=
  match tree.root with
  | none => .ok none
  | some slot => some <$> tree.outermost side slot

/-- The node with the least key. -/
def first (tree : Tree α) : Except Fault Link :=
  tree.extreme .left

/-- The node with the greatest key. -/
def last (tree : Tree α) : Except Fault Link :=
  tree.extreme .right

/-- Goes up while the node hangs on the right, and answers the parent there. -/
def climb (tree : Tree α) : Nat → (link parent : Link) → Except Fault Link
  | 0, _, _ => .error .endless
  | _ + 1, _, none => .ok none
  | steps + 1, link, some slot => do
    if link = (← tree.child .right (some slot)) then
      climb tree steps (some slot) (← tree.parent (some slot))
    else
      return some slot

/-- The node with the next key: the first of the right subtree, or the nearest
ancestor on whose left the node lies. -/
def next (tree : Tree α) (link : Link) : Except Fault Link := do
  if link = none then
    return none
  match ← tree.child .right link with
  | some slot => some <$> tree.outermost .left slot
  | none => tree.climb tree.stepLimit link (← tree.parent link)

/-- Counts the nodes of a subtree that is at most so many nodes deep. -/
def subtreeSizeWithin (tree : Tree α) : Nat → Link → Except Fault Nat
  | _, none => .ok 0
  | 0, some _ => .error .endless
  | depth + 1, some slot => do
    let left ← tree.child .left (some slot)
    let leftSize ← subtreeSizeWithin tree depth left
    let right ← tree.child .right (some slot)
    let rightSize ← subtreeSizeWithin tree depth right
    return 1 + leftSize + rightSize

/-- The number of nodes of a subtree. -/
def subtreeSize (tree : Tree α) (link : Link) : Except Fault Nat :=
  tree.subtreeSizeWithin tree.stepLimit link

end Tree

end Containers
