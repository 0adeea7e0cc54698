import Containers.Proofs.ManagedTrees
import Containers.Proofs.MapRuns
import Containers.Proofs.PacingVectors

/-! Trees and maps whose nodes lie in a storage of one capacity, beside the same ones
with their nodes on the heap. A key is searched before room is asked for, the new node
takes the next slot in either buffer, and all that is done to links, colours and values
after that is blind to the buffer. -/
namespace Containers

namespace Tree

section Moves
variable {α β : Type} {engine : Engine}

theorem moved_onNodes {op : Op (Storage (Node α)) β} (twinned : Twinned (Moved (Storage.onto engine)) op) :
    Twinned (Moved (onto engine)) (onNodes op) :=
  moved_part (fun _ => rfl) (fun _ _ => rfl) twinned

theorem moved_rewrite {change : Array α → Array α} :
    Twinned (Moved (Storage.onto engine)) (Storage.rewrite change : Op (Storage α) Unit) :=
  moved_update fun _ => rfl

theorem moved_swapErase (slot : Nat) :
    Twinned (Moved (Storage.onto engine)) (Vector.swapErase slot : Op (Vector α) α) := by
  unfold Vector.swapErase
  refine moved_reading (fun _ => rfl) fun v => ?_
  split
  · exact twinned_fail _
  · exact twinned_bind moved_rewrite fun _ => twinned_pure _

theorem text_onto [Shown α] (tree : Tree α) : (tree.onto engine).text = tree.text := by
  simp only [text, toList_onto]

theorem moved_release (slot : Nat) : Twinned (Moved (onto engine)) (release slot : Op (Tree α) α) := by
  unfold release
  refine moved_reading (fun _ => rfl) fun tree => ?_
  refine twinned_bind (moved_onNodes (moved_swapErase slot)) fun node => ?_
  split
  · exact twinned_bind (moved_alone (Relink.blind_adopt slot _)) fun _ => twinned_pure node.value
  · exact twinned_pure node.value

theorem moved_eraseNode (link : Link) : Twinned (Moved (onto engine)) (eraseNode link : Op (Tree α) α) := by
  unfold eraseNode
  refine moved_reading (fun _ => rfl) fun tree => ?_
  split
  · exact twinned_fail _
  · rename_i slot
    refine twinned_bind (twinned_require _ _) fun _ => ?_
    exact twinned_bind (moved_alone (Relink.blind_unlink slot)) fun gone => moved_release gone

theorem moved_clear : Twinned (Moved (onto engine)) (clear : Op (Tree α) Unit) := by
  unfold clear Vector.clear Vector.truncate
  exact twinned_bind (moved_onNodes moved_rewrite) fun _ => moved_update fun _ => rfl

variable {κ : Type} [Keyed α κ] [Ord κ]

theorem moved_remove (k : κ) : Twinned (Moved (onto engine)) (remove k : Op (Tree α) (Option α)) := by
  unfold remove
  refine twinned_bind (moved_look fun tree => tree.find?_onto engine k) fun found => ?_
  split
  · exact twinned_pure none
  · exact twinned_map _ (moved_eraseNode _)

theorem moved_erase (k : κ) : Twinned (Moved (onto engine)) (erase k : Op (Tree α) Nat) := by
  unfold erase
  refine twinned_bind (moved_look fun tree => tree.find?_onto engine k) fun found => ?_
  split
  · exact twinned_pure 0
  · exact twinned_bind (moved_eraseNode _) fun _ => twinned_pure 1

end Moves

section Bounded
variable {α κ : Type} [Keyed α κ] [Ord κ] {room : Nat} {free fixed : Host (Tree α)} {values : List α}

/-- The same tree in both hosts, slot by slot, with its nodes in a storage of one
capacity in the second; it stands for a sorted list. -/
structure Level (room : Nat) (free fixed : Host (Tree α)) : Prop where
  same : fixed.container = free.container.onto (.inline room)
  room : free.container.size ≤ room
  ordered : ∃ values, free.container.Represents values

/-- What does not see the buffer keeps both trees abreast if the tree does not grow. -/
theorem Level.paces_of_moved {β : Type} {op : Op (Tree α) β} (level : Level room free fixed)
    (twinned : Twinned (Moved (onto (.inline room))) op)
    (shrinks : (op.step free).after.container.size ≤ free.container.size) :
    Paces (·.size ≤ room) (Moved (onto (.inline room))) op free fixed :=
  twinned.paces level.same
    ((leads_iff_step op fun _ after => after.container.size ≤ room).mpr (Nat.le_trans shrinks level.room))

/-- The commands that do not put another tree in place. -/
def Command.Portable : Command α κ → Prop
  | .renew | .renewOver _ _ | .renewFrom _ => False
  | _ => True

/-- Commands other than insertions leave no more values than there were. -/
theorem Reference.length_next_le (values : List α) {command : Command α κ} {outcome : Except Fault (Reply α)}
    (portable : command.Portable) (inserts : ∀ value, command ≠ .insert value)
    (tries : ∀ value, command ≠ .tryInsert value) :
    (next values command outcome).length ≤ values.length := by
  have drops : ∀ k : κ, (Listing.drop k values).length ≤ values.length := fun k => List.length_filter_le ..
  cases command with
  | insert value => exact absurd rfl (inserts value)
  | tryInsert value => exact absurd rfl (tries value)
  | renew | renewOver _ _ | renewFrom _ => exact portable.elim
  | erase k | remove k =>
    cases outcome with
    | ok reply => exact drops k
    | error fault => exact Nat.le_refl _
  | eraseNode link =>
    cases outcome with
    | ok reply =>
      cases reply with
      | value x => exact drops _
      | _ => exact Nat.le_refl _
    | error fault => exact Nat.le_refl _
  | clear =>
    cases outcome with
    | ok reply => exact Nat.zero_le _
    | error fault => exact Nat.le_refl _
  | _ => exact Nat.le_refl _

variable [Std.TransOrd κ] [Stored α]

/-- The search comes first, and once there is a slot for it the node is linked alike. -/
theorem tryInsert_paces (level : Level room free fixed) (value : α) :
    Paces (·.size ≤ room) (Moved (onto (.inline room))) (tryInsert value) free fixed := by
  obtain ⟨same, within, values, shape, sound, -⟩ := level
  obtain ⟨place, search, located⟩ := locate_located sound.linked sound.sorted (Keyed.key value)
  unfold tryInsert
  refine paces_after (moved_look fun tree => tree.locate_onto _ _) same ((leads_look search).mpr ?_)
  intro fixed' moved
  cases located with
  | @found slot _ inside filled equal => exact (twinned_pure slot).paces moved within
  | @vacant trail place parts =>
    subst place
    have alike : Moved (Storage.onto (.inline room)) (⟨free.container.nodes, free.pool⟩ : Host (Storage (Node α)))
        ⟨fixed'.container.nodes, fixed'.pool⟩ := congrArg Tree.nodes moved
    have pushes := Vector.tryPush_paces alike within (⟨.leaf trail.parent, value⟩ : Node α)
    refine paces_then (paces_part (fun _ _ => Iff.rfl) (fun _ _ => rfl) moved pushes) (fun _ => ?_) ?_
    · refine moved_reading (fun _ => rfl) fun tree => ?_
      refine twinned_bind (moved_alone (Relink.blind_hang _ _ _)) fun _ => ?_
      exact twinned_bind (moved_alone (Relink.blind_repairRed _)) fun _ => twinned_pure _
    · rw [onNodes, leads_part]
      refine (Vector.tryPush_leads ⟨free.container.nodes, free.pool⟩ _).mono ?_ fun _ _ _ => trivial
      rintro _ ⟨nodes, pool⟩ ⟨items, -⟩
      have more : free.container.Grown ⟨.leaf trail.parent, value⟩ { free.container with nodes } :=
        ⟨items, rfl, rfl⟩
      apply current_then
      rw [more.size, Nat.add_sub_cancel]
      apply (place_sure pool sound parts more).weaken
      rintro _ after ⟨-, shape', -, -, filed⟩
      rw [← size_values after.container, filed, Array.size_push, size_values]

variable [Shown κ] [Shown α]

/-- Every command that puts no other tree in place keeps both trees abreast. -/
theorem perform_paces {command : Command α κ} (portable : command.Portable) (level : Level room free fixed) :
    Paces (·.size ≤ room) (Level room) command.perform free fixed := by
  obtain ⟨values, represents⟩ := level.ordered
  have agrees := (perform_agrees represents command).2
  have blind : (∀ value, command ≠ .insert value) → (∀ value, command ≠ .tryInsert value) →
      Twinned (Moved (onto (.inline room))) command.perform →
      Paces (·.size ≤ room) (Moved (onto (.inline room))) command.perform free fixed := by
    intro inserts tries twinned
    apply level.paces_of_moved twinned
    rw [agrees.size_eq, represents.size_eq]
    exact Reference.length_next_le values portable inserts tries
  have paces : Paces (·.size ≤ room) (Moved (onto (.inline room))) command.perform free fixed := by
    cases command with
    | insert value => exact paces_map _ (paces_orAbort (tryInsert_paces level value))
    | tryInsert value => exact paces_map _ (tryInsert_paces level value)
    | get k => exact blind nofun nofun (twinned_map _ (moved_look fun tree => tree.get?_onto _ k))
    | contains k => exact blind nofun nofun (twinned_map _ (moved_look fun tree => tree.contains_onto _ k))
    | erase k => exact blind nofun nofun (twinned_map _ (moved_erase k))
    | remove k => exact blind nofun nofun (twinned_map _ (moved_remove k))
    | eraseNode link => exact blind nofun nofun (twinned_map _ (moved_eraseNode link))
    | clear => exact blind nofun nofun (twinned_bind moved_clear fun _ => twinned_pure _)
    | iterate calls => exact blind nofun nofun (twinned_map _ (moved_look fun tree => tree.walk_onto _ calls))
    | text => exact blind nofun nofun (twinned_map _ (moved_look text_onto))
    | renew | renewOver _ _ | renewFrom _ => exact portable.elim
    | ask query => exact blind nofun nofun (twinned_map _ (moved_look fun tree => tree.answer_onto _ query))
  exact paces.mono fun within alike => ⟨alike, within, _, agrees⟩

end Bounded

end Tree

namespace Map
variable {κ ν : Type}

section Moves
variable {engine : Engine}

theorem extreme?_onto (map : Map κ ν) (side : Side) : extreme? (Tree.onto engine map) side = extreme? map side := by
  simp only [extreme?, Tree.extreme_onto]
  rfl

theorem walk_onto (map : Map κ ν) (calls : Nat) : walk (Tree.onto engine map) calls = walk map calls := by
  simp only [walk, Tree.cursor_onto, Tree.advanceMany_onto, Tree.toList_onto]

theorem text_onto [Shown κ] [Shown ν] (map : Map κ ν) : text (Tree.onto engine map) = text map := by
  simp only [text, Tree.toList_onto]

variable [Ord κ]

theorem moved_setValue (k : κ) (value : ν) :
    Twinned (Moved (Tree.onto engine)) (setValue k value : Op (Map κ ν) (Option ν)) := by
  unfold setValue
  refine moved_reading (fun _ => rfl) fun tree => ?_
  refine twinned_bind (moved_look fun tree => Tree.find?_onto tree engine k) fun found => ?_
  split
  · exact twinned_pure none
  · exact twinned_bind (moved_update fun _ => rfl) fun _ => twinned_pure _

theorem get?_onto (map : Map κ ν) (k : κ) : get? (Tree.onto engine map) k = get? map k := by
  simp only [get?, Tree.get?_onto]

end Moves

section Bounded
variable [Ord κ] {room : Nat} {free fixed : Host (Map κ ν)}

/-- The commands that do not put another map in place. -/
def Command.Portable : Command κ ν → Prop
  | .renew | .renewFrom _ => False
  | _ => True

/-- Commands other than insertions leave no more entries than there were. -/
theorem Reference.length_next_le (entries : List (κ × ν)) {command : Command κ ν} {outcome : Except Fault (Reply κ ν)}
    (portable : command.Portable) (inserts : ∀ k value, command ≠ .insert k value)
    (tries : ∀ k value, command ≠ .tryInsert k value) :
    (next entries command outcome).length ≤ entries.length := by
  cases command with
  | insert k value => exact absurd rfl (inserts k value)
  | tryInsert k value => exact absurd rfl (tries k value)
  | renew | renewFrom _ => exact portable.elim
  | setValue k value =>
    cases outcome with
    | ok reply => exact Nat.le_of_eq (List.length_map _)
    | error fault => exact Nat.le_refl _
  | remove k =>
    cases outcome with
    | ok reply => exact List.length_filter_le ..
    | error fault => exact Nat.le_refl _
  | clear =>
    cases outcome with
    | ok reply => exact Nat.zero_le _
    | error fault => exact Nat.le_refl _
  | _ => exact Nat.le_refl _

variable [Std.TransOrd κ] [Stored κ] [Stored ν]

/-- A key that is present is overwritten before room is asked for. -/
theorem tryInsert_paces (level : Tree.Level room free fixed) (k : κ) (value : ν) :
    Paces (·.size ≤ room) (Moved (Tree.onto (.inline room))) (tryInsert k value) free fixed := by
  obtain ⟨same, within, entries, represents⟩ := level
  unfold tryInsert
  refine paces_after (moved_setValue k value) same ((setValue_sure represents k value).weaken ?_)
  rintro answer after ⟨isAnswer, represents', -, unchanged⟩ fixed' moved
  cases found : Listing.find? k entries with
  | some entry =>
    rw [found] at isAnswer
    subst isAnswer
    apply (twinned_pure _).paces moved
    have size : after.container.size = free.container.size := by
      rw [represents'.size_eq, represents.size_eq]
      exact List.length_map _
    exact Nat.le_trans (Nat.le_of_eq size) within
  | none =>
    rw [found] at isAnswer
    obtain rfl := (unchanged found).symm
    subst isAnswer
    exact paces_reply (fun _ => ⟨_, rfl⟩) (Tree.tryInsert_paces ⟨moved, within, entries, represents⟩ (k, value))

variable [Shown κ] [Shown ν]

/-- Every command that puts no other map in place keeps both maps abreast. -/
theorem perform_paces {command : Command κ ν} (portable : command.Portable) (level : Tree.Level room free fixed) :
    Paces (·.size ≤ room) (Tree.Level room) command.perform free fixed := by
  obtain ⟨entries, represents⟩ := level.ordered
  have agrees := (perform_agrees represents command).2
  have blind : (∀ k value, command ≠ .insert k value) → (∀ k value, command ≠ .tryInsert k value) →
      Twinned (Moved (Tree.onto (.inline room))) command.perform →
      Paces (·.size ≤ room) (Moved (Tree.onto (.inline room))) command.perform free fixed := by
    intro inserts tries twinned
    apply level.paces_of_moved twinned
    rw [agrees.size_eq, represents.size_eq]
    exact Reference.length_next_le entries portable inserts tries
  have paces : Paces (·.size ≤ room) (Moved (Tree.onto (.inline room))) command.perform free fixed := by
    cases command with
    | insert k value => exact paces_map _ (paces_orAbort (tryInsert_paces level k value))
    | tryInsert k value => exact paces_map _ (tryInsert_paces level k value)
    | get k => exact blind nofun nofun (twinned_map _ (moved_look fun map => get?_onto map k))
    | setValue k value => exact blind nofun nofun (twinned_map _ (moved_setValue k value))
    | contains k => exact blind nofun nofun (twinned_map _ (moved_look fun map => Tree.contains_onto map _ k))
    | remove k => exact blind nofun nofun (twinned_map _ (twinned_map _ (Tree.moved_remove k)))
    | extreme side => exact blind nofun nofun (twinned_map _ (moved_look fun map => extreme?_onto map side))
    | clear => exact blind nofun nofun (twinned_bind Tree.moved_clear fun _ => twinned_pure _)
    | iterate calls => exact blind nofun nofun (twinned_map _ (moved_look fun map => walk_onto map calls))
    | text => exact blind nofun nofun (twinned_map _ (moved_look text_onto))
    | renew | renewFrom _ => exact portable.elim
    | ask query => exact blind nofun nofun (twinned_map _ (moved_look fun map => Tree.answer_onto map _ query))
  exact paces.mono fun within alike => ⟨alike, within, _, agrees⟩

end Bounded

end Map

end Containers
