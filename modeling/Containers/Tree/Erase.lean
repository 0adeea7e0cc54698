import Containers.Tree.Insert

/-! Removal. A node with two children gives way to its successor, so the node
that leaves has one child at most. If it was black, the paths through its place
are one black node short until the repair has painted or rotated that away.
The last node of the arena then fills the freed slot. -/
namespace Containers

namespace Relink
variable {α : Type}

/-- Makes the sibling of a node black, by one rotation if it was red, and
answers it. -/
def blackSibling (side : Side) (link parent : Link) : Relink α Link := do
  let sibling ← look (·.child side.opposite parent)
  if (← look (·.color sibling)) = .red then
    setColor sibling .black
    setColor parent .red
    rotate side parent
    let above ← look (·.parent link)
    look (·.child side.opposite above)
  else
    return sibling

/-- Whether both children are black. -/
def childrenBlack (link : Link) : Relink α Bool := do
  let left ← look (·.child .left link)
  if (← look (·.color left)) = .black then
    let right ← look (·.child .right link)
    return (← look (·.color right)) = .black
  else
    return false

/-- Makes the outer child of a sibling red, by one rotation if only the inner
one was, and answers the sibling. -/
def redOuterChild (side : Side) (link sibling : Link) : Relink α Link := do
  let outer ← look (·.child side.opposite sibling)
  if (← look (·.color outer)) = .black then
    let inner ← look (·.child side sibling)
    setColor inner .black
    setColor sibling .red
    rotate side.opposite sibling
    let above ← look (·.parent link)
    look (·.child side.opposite above)
  else
    return sibling

/-- One round of the repair at a node whose paths are one black node short:
where the trouble may be now. -/
def repairShortStep (link : Link) : Relink α Link := do
  let parent ← look (·.parent link)
  let side : Side := if link = (← look (·.child .left parent)) then .left else .right
  let sibling ← blackSibling side link parent
  if ← childrenBlack sibling then
    setColor sibling .red
    look (·.parent link)
  else
    let sibling ← redOuterChild side link sibling
    let parent ← look (·.parent link)
    let outer ← look (·.child side.opposite sibling)
    setColor sibling (← look (·.color parent))
    setColor parent .black
    setColor outer .black
    rotate side parent
    return (← current).root

/-- Repairs until the trouble is at a red node or at the root, and answers that
node. -/
def repairShortFrom : Nat → Link → Relink α Link
  | 0, _ => fail .endless
  | rounds + 1, link => do
    if link ≠ (← current).root ∧ (← look (·.color link)) = .black then
      let higher ← repairShortStep link
      repairShortFrom rounds higher
    else
      return link

/-- Repairs the tree at the place that a black node left. -/
def repairShort (link : Link) : Relink α Unit := do
  let last ← repairShortFrom (← current).stepLimit link
  setColor last .black

/-- Exchanges the values of two nodes. -/
def swapValues (a b : Nat) : Relink α Unit :=
  step (.values a b)

/-- The node to take out in place of the one in `slot`: itself, or its
successor if it has two children. -/
def departing (slot : Nat) : Relink α Nat := do
  let left ← look (·.child .left (some slot))
  match left, ← look (·.child .right (some slot)) with
  | some _, some right => look (·.outermost .left right)
  | _, _ => return slot

/-- The child of a node that has one at most; the sentinel if there is none. -/
def onlyChild (slot : Nat) : Relink α Link := do
  let left ← look (·.child .left (some slot))
  if left ≠ none then
    return left
  else
    look (·.child .right (some slot))

/-- Puts the only child of a node in its place, be it the sentinel, and answers
that child. -/
def bypass (slot : Nat) : Relink α Link := do
  let orphan ← onlyChild slot
  let parent ← look (·.parent (some slot))
  setParent orphan parent
  redirect parent (some slot) orphan
  return orphan

/-- Repairs at the place that a node left, if it was black, and puts the
sentinel to rest. -/
def mend (gone : Nat) (orphan : Link) : Relink α Unit := do
  if (← look (·.color (some gone))) = .black then
    repairShort orphan
  step .rest

/-- Takes the value in `slot` out of the order and unlinks a node, and answers
the slot of that node, which then holds the value. -/
def unlink (slot : Nat) : Relink α Nat := do
  let gone ← departing slot
  let orphan ← bypass gone
  if gone ≠ slot then
    swapValues slot gone
  mend gone orphan
  return gone

/-- After the last node moved into `slot`, its neighbours link to it there. -/
def adopt (slot old : Nat) : Relink α Unit := do
  let links ← look (·.links (some slot))
  redirect links.parent (some old) (some slot)
  entrust links.left (some slot)
  entrust links.right (some slot)

end Relink

namespace Tree
variable {α κ : Type} [Stored α]

/-- Drops an unlinked node, lets the last one fill its slot, and answers the
value that was in it. -/
def release (slot : Nat) : Op (Tree α) α := do
  let last := (← Op.current).size - 1
  let node ← onNodes (Vector.swapErase slot)
  if slot ≠ last then
    Op.alone (Relink.adopt slot last).run
  return node.value

/-- Takes out the value that a node holds. -/
def eraseNode (link : Link) : Op (Tree α) α := do
  let tree ← Op.current
  match link with
  | none => Op.fail (.foreignNode none)
  | some slot =>
    Op.require (slot < tree.size) (.foreignNode (some slot))
    let gone ← Op.alone (Relink.unlink slot).run
    release gone

/-- Takes out the value filed under a key. -/
def remove [Keyed α κ] [Ord κ] (k : κ) : Op (Tree α) (Option α) := do
  match ← Op.look (·.find? k) with
  | none => return none
  | some slot => some <$> eraseNode (some slot)

/-- Drops the value filed under a key and answers how many were dropped. -/
def erase [Keyed α κ] [Ord κ] (k : κ) : Op (Tree α) Nat := do
  match ← Op.look (·.find? k) with
  | none => return 0
  | some slot =>
    let _ ← eraseNode (some slot)
    return 1

/-- Drops every value and keeps the buffer of the nodes. -/
def clear : Op (Tree α) Unit := do
  onNodes Vector.clear
  Op.update fun tree => { tree with sentinel := .sentinel, root := none }

end Tree

end Containers
