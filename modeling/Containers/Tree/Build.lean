import Containers.Tree.Insert

/-! Trees that begin anew: over a fresh storage, or from a list of values. The
new tree is complete before the old one is dropped. -/
namespace Containers
variable {α κ : Type} [Stored α]

instance : Container (Tree α) where
  dispose tree := Container.dispose tree.nodes

namespace Tree

/-- The empty tree on the same kind of storage, before anything was stored. -/
def fresh (tree : Tree α) : Tree α :=
  { nodes := ⟨tree.nodes.engine.fresh, #[]⟩ }

/-- Begins anew over a fresh storage that was prepared before; a tree takes
only a storage without nodes. -/
def renewOver (prepare : Op (Storage (Node α)) Unit) : Op (Tree α) Unit := do
  let nodes ← Op.build (Tree.fresh (← Op.current)).nodes do
    prepare
    Op.require ((← Op.current).size = 0) .treeStorageInUse
  Op.replace { nodes }

/-- Makes sure of so many slots and marks the first ones as holding nodes. -/
def occupy (slots : Nat) (nodes : List (Node α)) : Op (Storage (Node α)) Unit := do
  if (← Op.current).capacity < slots then
    Storage.reallocate slots
  Storage.rewrite (· ++ nodes)

/-- Begins anew with these values, of which the first with each key counts. -/
def renewFrom [Keyed α κ] [Ord κ] (values : List α) : Op (Tree α) Unit := do
  let made ← Op.build (Tree.fresh (← Op.current)) do
    values.forM fun value => do
      let _ ← insert value
  Op.replace made

end Tree

end Containers
