import Containers.Storage.Basic
import Containers.Element.Basic

/-! Trees in an arena. The nodes lie in a storage and refer to each other by
slot; a record of its own stands for the sentinel, so that it can be given a
parent for a while like any node. Every access checks that the slot exists. -/
namespace Containers

/-- The links of a node and its colour. -/
structure Links where
  left : Link
  right : Link
  parent : Link
  color : Color
deriving DecidableEq

namespace Links

/-- The record of the sentinel at rest: black, and pointing at itself. -/
def sentinel : Links := ⟨none, none, none, .black⟩

/-- The record of a new node: red, with no child. -/
def leaf (parent : Link) : Links := ⟨none, none, parent, .red⟩

/-- The child on one side. -/
def child (side : Side) (links : Links) : Link :=
  match side with
  | .left => links.left
  | .right => links.right

/-- The links with another child on one side. -/
def withChild (side : Side) (link : Link) (links : Links) : Links :=
  match side with
  | .left => { links with left := link }
  | .right => { links with right := link }

end Links

/-- A node: its links, and the value that it holds. -/
structure Node (α : Type) where
  links : Links
  value : α

/-- Three links and a colour take four words. -/
instance [Stored α] : Stored (Node α) where
  layout := Layout.pair (Layout.word.array 4) (Stored.layout α)

/-- An arena of nodes, the sentinel's record, and the link to the root. -/
structure Tree (α : Type) where
  nodes : Storage (Node α)
  sentinel : Links := .sentinel
  root : Link := none

namespace Tree
variable {α β κ : Type}

/-- The number of nodes. -/
def size (tree : Tree α) : Nat :=
  tree.nodes.size

/-- A tree is empty when its root is the sentinel. -/
def isEmpty (tree : Tree α) : Bool :=
  tree.root = none

/-- The node behind a link, unless the link is stale or the sentinel. -/
def node? (tree : Tree α) (link : Link) : Option (Node α) :=
  link.bind fun slot => tree.nodes.items[slot]?

/-- The value behind a link, unless the link is stale or the sentinel. -/
def value? (tree : Tree α) (link : Link) : Option α :=
  (tree.node? link).map Node.value

/-- The node in a slot, which must exist. -/
def nodeAt (tree : Tree α) (slot : Nat) : Except Fault (Node α) :=
  match tree.nodes.items[slot]? with
  | some node => .ok node
  | none => .error .outOfRange

/-- The links of a node or of the sentinel. -/
def links (tree : Tree α) : Link → Except Fault Links
  | none => .ok tree.sentinel
  | some slot => Node.links <$> tree.nodeAt slot

/-- The child on one side. -/
def child (tree : Tree α) (side : Side) (link : Link) : Except Fault Link :=
  Links.child side <$> tree.links link

/-- The parent. -/
def parent (tree : Tree α) (link : Link) : Except Fault Link :=
  Links.parent <$> tree.links link

/-- The colour. -/
def color (tree : Tree α) (link : Link) : Except Fault Color :=
  Links.color <$> tree.links link

/-- The key of the value in a slot. -/
def keyAt [Keyed α κ] (tree : Tree α) (slot : Nat) : Except Fault κ :=
  (fun node => Keyed.key node.value) <$> tree.nodeAt slot

/-- More steps than a walk along the links of a tree can take. -/
def stepLimit (tree : Tree α) : Nat :=
  tree.size + 1

end Tree

/-- A single write to a tree. -/
inductive Edit where
  /-- Hangs a child on one side of a node. -/
  | child (side : Side) (link child : Link)
  | parent (link parent : Link)
  | color (link : Link) (color : Color)
  | root (link : Link)
  /-- Exchanges the values of two nodes. -/
  | values (a b : Nat)
  /-- Puts the sentinel to rest. -/
  | rest
  /-- Notes that a rotation begins, and writes nothing. -/
  | rotation (side : Side) (link : Link)
deriving DecidableEq

namespace Tree
variable {α : Type}

/-- Changes the record of a node or of the sentinel. -/
def amend (link : Link) (f : Links → Links) (tree : Tree α) : Except Fault (Tree α) :=
  match link with
  | none => .ok { tree with sentinel := f tree.sentinel }
  | some slot =>
    match tree.nodes.items[slot]? with
    | none => .error .outOfRange
    | some node =>
      .ok { tree with
        nodes.items := tree.nodes.items.setIfInBounds slot { node with links := f node.links } }

/-- Exchanges the values of two nodes. -/
def exchange (a b : Nat) (tree : Tree α) : Except Fault (Tree α) := do
  let first ← tree.nodeAt a
  let second ← tree.nodeAt b
  return { tree with
    nodes.items := (tree.nodes.items.setIfInBounds a { first with value := second.value })
      |>.setIfInBounds b { second with value := first.value } }

/-- Carries out a write, which may name a slot that does not exist. -/
def enact (tree : Tree α) : Edit → Except Fault (Tree α)
  | .child side link child => tree.amend link (Links.withChild side child)
  | .parent link parent => tree.amend link fun links => { links with parent }
  | .color link color => tree.amend link fun links => { links with color }
  | .root link => .ok { tree with root := link }
  | .values a b => tree.exchange a b
  | .rest => .ok { tree with sentinel := .sentinel }
  | .rotation _ _ => .ok tree

end Tree

/-- A change of a tree's links, written down as the reads and the single writes
that it consists of. -/
inductive Relink (α β : Type) where
  | done (answer : β)
  | fail (fault : Fault)
  | read (next : Tree α → Relink α β)
  | write (edit : Edit) (rest : Relink α β)

namespace Relink
variable {α β γ : Type}

/-- Goes on from the answer of a change. -/
def bind : Relink α β → (β → Relink α γ) → Relink α γ
  | done answer, next => next answer
  | fail fault, _ => fail fault
  | read step, next => read fun tree => (step tree).bind next
  | write edit rest, next => write edit (rest.bind next)

instance : Monad (Relink α) where
  pure := done
  bind := bind

/-- Carries out a change, up to the first read or write that fails. -/
def run : Relink α β → EStateM Fault (Tree α) β
  | done answer => fun tree => .ok answer tree
  | fail fault => fun tree => .error fault tree
  | read next => fun tree => (next tree).run tree
  | write edit rest => fun tree =>
    match tree.enact edit with
    | .ok after => rest.run after
    | .error fault => .error fault tree

/-- The tree as it stands. -/
def current : Relink α (Tree α) :=
  read done

/-- Reads from the tree. -/
def look (question : Tree α → Except Fault β) : Relink α β :=
  read fun tree =>
    match question tree with
    | .ok answer => done answer
    | .error fault => fail fault

/-- A single write. -/
def step (edit : Edit) : Relink α Unit :=
  write edit (done ())

/-- Hangs a child on one side. -/
def setChild (side : Side) (link child : Link) : Relink α Unit :=
  step (.child side link child)

/-- Names a parent. -/
def setParent (link parent : Link) : Relink α Unit :=
  step (.parent link parent)

/-- Paints a node. -/
def setColor (link : Link) (color : Color) : Relink α Unit :=
  step (.color link color)

/-- Names the root. -/
def setRoot (link : Link) : Relink α Unit :=
  step (.root link)

/-- Puts `new` where `old` hangs below `parent`: at the root if there is no
parent, else on the left if `old` hangs there, and on the right otherwise. -/
def redirect (parent old new : Link) : Relink α Unit := do
  if parent = none then
    setRoot new
  else if (← look (·.child .left parent)) = old then
    setChild .left parent new
  else
    setChild .right parent new

/-- Names a parent for a node; the sentinel is left alone. -/
def entrust (link parent : Link) : Relink α Unit :=
  if link = none then pure () else setParent link parent

/-- Lifts the child on the other side into the place of a node, which sinks
to the given side of it; the inner grandchild changes its parent. -/
def rotate (side : Side) (link : Link) : Relink α Unit := do
  step (.rotation side link)
  let lifted ← look (·.child side.opposite link)
  let inner ← look (·.child side lifted)
  setChild side.opposite link inner
  entrust inner link
  let parent ← look (·.parent link)
  setParent lifted parent
  redirect parent link lifted
  setChild side lifted link
  setParent link lifted

end Relink

end Containers
