import Containers.Tree.Descent
import Containers.Vector.Basic

/-! Insertion. A new node is red and hangs where its key belongs; while its
parent is red as well, the trouble is either painted away, which moves it two
levels up, or rotated away, which ends it. -/
namespace Containers

namespace Relink
variable {α : Type}

/-- One round of the repair at a red node below a red parent: where the trouble
may be now. -/
def repairRedStep (link : Link) : Relink α Link := do
  let parent ← look (·.parent link)
  let grandparent ← look (·.parent parent)
  let side : Side := if parent = (← look (·.child .left grandparent)) then .left else .right
  let uncle ← look (·.child side.opposite grandparent)
  if (← look (·.color uncle)) = .red then
    setColor parent .black
    setColor uncle .black
    setColor grandparent .red
    return grandparent
  else
    let lower ← straighten side link parent
    let parent ← look (·.parent lower)
    let grandparent ← look (·.parent parent)
    setColor parent .black
    setColor grandparent .red
    rotate side.opposite grandparent
    return lower
where
  /-- Makes both red nodes hang on the same side, and answers the lower one. -/
  straighten (side : Side) (link parent : Link) : Relink α Link := do
    if link = (← look (·.child side.opposite parent)) then
      rotate side parent
      return parent
    else
      return link

/-- Repairs until the parent is black. -/
def repairRedFrom : Nat → Link → Relink α Unit
  | 0, _ => fail .endless
  | rounds + 1, link => do
    let parent ← look (·.parent link)
    if (← look (·.color parent)) = .red then
      let higher ← repairRedStep link
      repairRedFrom rounds higher
    else
      return ()

/-- Repairs the tree after a red node was hung into it. -/
def repairRed (link : Link) : Relink α Unit := do
  repairRedFrom (← current).stepLimit link
  setColor (← current).root .black

/-- Hangs a node below a parent, or makes it the root. -/
def hang (link parent : Link) (side : Side) : Relink α Unit :=
  if parent = none then setRoot link else setChild side parent link

end Relink

namespace Tree
variable {α β κ : Type}

/-- Runs an operation on the storage of the nodes. -/
def onNodes (op : Op (Storage (Node α)) β) : Op (Tree α) β :=
  Op.part Tree.nodes (fun nodes tree => { tree with nodes }) op

variable [Keyed α κ] [Ord κ] [Stored α]

/-- Files a value unless its key is present, and answers the slot that holds
the key. -/
def tryInsert (value : α) : Op (Tree α) Nat := do
  match ← Op.look (·.locate (Keyed.key value)) with
  | .found slot => return slot
  | .vacant parent side =>
    onNodes (Vector.tryPush ⟨.leaf parent, value⟩)
    let slot := (← Op.current).size - 1
    Op.alone (Relink.hang (some slot) parent side).run
    Op.alone (Relink.repairRed (some slot)).run
    return slot

/-- Files a value unless its key is present. -/
def insert (value : α) : Op (Tree α) Nat :=
  Op.orAbort (tryInsert value)

end Tree

end Containers
