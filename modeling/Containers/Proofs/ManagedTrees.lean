import Containers.Proofs.Blind
import Containers.Proofs.ManagedVectors

/-! The dealings of trees and ordered maps are in order. All that a tree owns is the
buffer of its nodes, and no change of its links or values touches that. -/
namespace Containers

instance {α : Type} [Stored α] : Holding (Tree α) where
  owned tree := Holding.owned tree.nodes
  dispose_history tree := Holding.dispose_history tree.nodes

instance {α : Type} [Stored α] : Buffered (Tree α) where
  engine tree := tree.nodes.engine
  owned_congr same := congrArg (Engine.owned (Node α)) same
  owned_vacated vacated id := vacated.owned_eq id
  dispose_frees tree := Buffered.dispose_frees tree.nodes

namespace Tree
variable {α β κ : Type} [Stored α]

theorem managed_onNodes {op : Op (Storage (Node α)) β} (managed : Managed op) : Managed (onNodes op) :=
  .part managed (fun _ => ⟨rfl, rfl⟩) fun _ _ => ⟨rfl, rfl⟩

/-- What only reads and writes links and values keeps the buffer. -/
theorem steady_relink (op : Relink α β) : Steady op.run := by
  induction op with
  | done _ | fail _ => exact fun _ => rfl
  | read next ih => exact fun tree => ih tree tree
  | write edit rest ih =>
    intro tree
    simp only [Leads, Relink.run]
    cases enacted : tree.enact edit with
    | error fault => rfl
    | ok after =>
      have same : Buffered.engine after = Buffered.engine tree := Relink.engine_enact enacted
      exact same ▸ ih after

theorem managed_relink (op : Relink α β) : Managed (Op.alone op.run) :=
  .alone (steady_relink op)

theorem managed_release (slot : Nat) : Managed (release slot : Op (Tree α) α) := by
  unfold release
  refine managed_reading fun tree => ?_
  refine .bind (managed_onNodes (Vector.managed_swapErase slot)) fun node => ?_
  split
  · refine .bind (managed_relink _) fun _ => ?_
    exact managed_pure node.value
  · exact managed_pure node.value

theorem managed_eraseNode (link : Link) : Managed (eraseNode link : Op (Tree α) α) := by
  unfold eraseNode
  refine managed_reading fun tree => ?_
  split
  · exact managed_fail _
  · rename_i slot
    refine .bind (managed_require _ _) fun _ => ?_
    refine .bind (managed_relink _) fun gone => ?_
    exact managed_release gone

theorem managed_clear : Managed (clear : Op (Tree α) Unit) := by
  unfold clear
  refine .bind (managed_onNodes (Vector.managed_truncate 0)) fun _ => ?_
  exact managed_update fun _ => rfl

theorem managed_occupy (slots : Nat) (nodes : List (Node α)) : Managed (occupy slots nodes) := by
  unfold occupy
  refine managed_reading fun storage => ?_
  split
  · exact .bind (.reallocate slots) fun _ => Storage.managed_rewrite _
  · exact Storage.managed_rewrite _

theorem managed_renewOver {prepare : Op (Storage (Node α)) Unit} (managed : Managed prepare) :
    Managed (renewOver prepare) := by
  have checked : Managed (do
      prepare
      Op.require ((← Op.current).size = 0) .treeStorageInUse : Op (Storage (Node α)) Unit) :=
    .bind managed fun _ => managed_reading fun _ => managed_require _ _
  exact .remake (fun _ => checked) (fun _ => .fresh) fun _ => ⟨rfl, rfl⟩

theorem managed_rebuild {fill : Op (Tree α) Unit} (managed : Managed fill) :
    Managed (do
      let tree ← Op.current
      let made ← Op.build (Tree.fresh tree) fill
      Op.replace made) :=
  .remake (fun _ => managed) (fun _ => .fresh) fun _ => ⟨rfl, rfl⟩

variable [Keyed α κ] [Ord κ]

theorem managed_tryInsert (value : α) : Managed (tryInsert value) := by
  unfold tryInsert
  refine .bind (managed_look _) fun place => ?_
  split
  · exact managed_pure _
  · rename_i parent side
    refine .bind (managed_onNodes (Vector.managed_tryPush _)) fun _ => ?_
    refine managed_reading fun tree => ?_
    refine .bind (managed_relink _) fun _ => ?_
    exact .bind (managed_relink _) fun _ => managed_pure _

theorem managed_insert (value : α) : Managed (insert value) :=
  .orAbort (managed_tryInsert value)

theorem managed_remove (k : κ) : Managed (remove k : Op (Tree α) (Option α)) := by
  unfold remove
  refine .bind (managed_look _) fun found => ?_
  split
  · exact managed_pure none
  · exact managed_map _ (managed_eraseNode _)

theorem managed_erase (k : κ) : Managed (erase k : Op (Tree α) Nat) := by
  unfold erase
  refine .bind (managed_look _) fun found => ?_
  split
  · exact managed_pure 0
  · exact .bind (managed_eraseNode _) fun _ => managed_pure 1

theorem managed_renewFrom (values : List α) : Managed (renewFrom values) := by
  apply managed_rebuild
  apply managed_forM
  intro value
  exact .bind (managed_insert value) fun _ => managed_pure ()

theorem managed_perform [Shown κ] [Shown α] (command : Command α κ) : Managed command.perform := by
  cases command with
  | insert value => exact managed_map _ (managed_insert value)
  | tryInsert value => exact managed_map _ (managed_tryInsert value)
  | erase k => exact managed_map _ (managed_erase k)
  | remove k => exact managed_map _ (managed_remove k)
  | eraseNode link => exact managed_map _ (managed_eraseNode link)
  | clear => exact .bind managed_clear fun _ => managed_pure _
  | renew => exact .bind (managed_renewOver (managed_pure ())) fun _ => managed_pure _
  | renewOver slots nodes =>
    exact .bind (managed_renewOver (managed_occupy slots nodes)) fun _ => managed_pure _
  | renewFrom values => exact .bind (managed_renewFrom values) fun _ => managed_pure _
  | get _ | contains _ | iterate _ | text | ask _ => exact managed_map _ (managed_look _)

theorem accounts_perform [Shown κ] [Shown α] (command : Command α κ) : Accounts command.perform :=
  (managed_perform command).accounts

end Tree

namespace Map
variable {κ ν : Type} [Ord κ] [Stored κ] [Stored ν]

theorem managed_setValue (k : κ) (value : ν) : Managed (setValue k value) := by
  unfold setValue
  refine managed_reading fun tree => ?_
  refine .bind (managed_look _) fun found => ?_
  split
  · exact managed_pure none
  · exact .bind (managed_update fun _ => rfl) fun _ => managed_pure _

theorem managed_tryInsert (k : κ) (value : ν) : Managed (tryInsert k value) := by
  unfold tryInsert
  refine .bind (managed_setValue k value) fun old => ?_
  split
  · exact managed_pure _
  · exact .bind (Tree.managed_tryInsert _) fun _ => managed_pure none

theorem managed_insert (k : κ) (value : ν) : Managed (insert k value) :=
  .orAbort (managed_tryInsert k value)

theorem managed_renewFrom (pairs : List (κ × ν)) : Managed (renewFrom pairs) := by
  apply Tree.managed_rebuild
  apply managed_forM
  intro pair
  exact .bind (managed_insert pair.1 pair.2) fun _ => managed_pure ()

theorem managed_perform [Shown κ] [Shown ν] (command : Command κ ν) : Managed command.perform := by
  cases command with
  | insert k value => exact managed_map _ (managed_insert k value)
  | tryInsert k value => exact managed_map _ (managed_tryInsert k value)
  | setValue k value => exact managed_map _ (managed_setValue k value)
  | remove k => exact managed_map _ (managed_map _ (Tree.managed_remove k))
  | clear => exact .bind Tree.managed_clear fun _ => managed_pure _
  | renew => exact .bind (Tree.managed_renewOver (managed_pure ())) fun _ => managed_pure _
  | renewFrom pairs => exact .bind (managed_renewFrom pairs) fun _ => managed_pure _
  | get _ | contains _ | extreme _ | iterate _ | text | ask _ => exact managed_map _ (managed_look _)

theorem accounts_perform [Shown κ] [Shown ν] (command : Command κ ν) : Accounts command.perform :=
  (managed_perform command).accounts

end Map

end Containers
