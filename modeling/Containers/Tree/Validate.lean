import Containers.Tree.Descent

/-! The check of a tree. It goes down from the root, compares every link with
its inverse, every key with the keys that enclose it, and the numbers of black
nodes on all paths, and it stops at the first broken condition. -/
namespace Containers.Tree
variable {α κ : Type}

/-- Goes on only if the condition holds. -/
def check (condition : Bool) (violation : Violation) : Except Fault Unit :=
  if condition then .ok () else .error (.panicked (.invalidTree violation))

/-- Whether a node hangs below its parent, or has none. -/
def hangsBelow (tree : Tree α) (parent link : Link) : Except Fault Bool := do
  if parent = none then
    return true
  else if (← tree.child .left parent) = link then
    return true
  else
    return (← tree.child .right parent) = link

/-- Checks that a child, if it is there, names the node as its parent. -/
def checkParentOf (tree : Tree α) (side : Side) (child link : Link) : Except Fault Unit := do
  if child ≠ none then
    check ((← tree.parent child) = link) (.staleParent side link)

/-- Checks that a child is black. -/
def checkBlack (tree : Tree α) (side : Side) (child link : Link) : Except Fault Unit := do
  check ((← tree.color child) = .black) (.redChild side link)

/-- Checks a subtree that is at most so many nodes deep and whose keys lie
between two bounds; answers the number of its nodes and its black height. -/
def validateWithin [Keyed α κ] [Ord κ] (tree : Tree α) :
    Nat → Link → (lower upper : Option κ) → Except Fault (Nat × Nat)
  | _, none, _, _ => .ok (0, 1)
  | 0, some _, _, _ => .error .endless
  | depth + 1, some slot, lower, upper => do
    let link : Link := some slot
    let links ← tree.links link
    check (← tree.hangsBelow links.parent link) (.notChildOfParent link)
    tree.checkParentOf .left links.left link
    tree.checkParentOf .right links.right link
    if links.color = .red then
      tree.checkBlack .left links.left link
      tree.checkBlack .right links.right link
    let key ← tree.keyAt slot
    check (lower.all fun bound => (compare bound key).isLT) (.keysOutOfOrder link)
    check (upper.all fun bound => (compare key bound).isLT) (.keysOutOfOrder link)
    let (leftCount, leftHeight) ← validateWithin tree depth links.left lower (some key)
    let (rightCount, rightHeight) ← validateWithin tree depth links.right (some key) upper
    check (leftHeight = rightHeight) (.unequalBlackHeights link)
    return (leftCount + rightCount + 1, leftHeight + if links.color = .black then 1 else 0)

/-- Checks every condition of a red-black tree and answers the black height,
where a missing child counts as one black node. -/
def validate [Keyed α κ] [Ord κ] (tree : Tree α) : Except Fault Nat := do
  check ((← tree.color tree.root) = .black) .redRoot
  check (tree.sentinel.color = .black) .redSentinel
  if tree.root ≠ none then
    check ((← tree.parent tree.root) = none) .rootWithParent
  let (count, height) ← tree.validateWithin tree.stepLimit tree.root none none
  check (count = tree.size) .wrongCount
  return height

end Containers.Tree
