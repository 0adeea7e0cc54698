import Containers.Proofs.Carving
import Containers.Proofs.DoublingVectors
import Containers.Proofs.Handles
import Containers.Proofs.PacingTrees

/-! Trees and maps grow by doubling as well. A tree asks for a buffer of nodes when a value
with a new key goes behind all others in a full storage; whatever is done to links, colours
and values after that, and whatever takes values out, leaves the buffer alone. -/
namespace Containers

namespace Tree

section Quiet
variable {α β κ : Type}

/-- The nodes stay in the same buffer, and nothing is asked of the allocators. -/
structure Quiet (before after : Host (Tree α)) : Prop where
  engine : after.container.nodes.engine = before.container.nodes.engine
  pool : after.pool = before.pool

instance : Std.Refl (@Quiet α) where
  refl _ := ⟨rfl, rfl⟩

instance : IsTrans (Host (Tree α)) Quiet where
  trans _ _ _ first second := ⟨second.engine.trans first.engine, second.pool.trans first.pool⟩

/-- A quiet step that leaves no more nodes than there were. -/
theorem Quiet.idle {before after : Host (Tree α)} (quiet : Quiet before after)
    (shrinks : after.container.size ≤ before.container.size) : Idle (before.stored nodes) (after.stored nodes) :=
  ⟨quiet.engine, quiet.pool, shrinks⟩

theorem quiet_onNodes {op : Op (Storage (Node α)) β} (idles : Obeys Idle op) : Obeys Quiet (onNodes op) := by
  intro host
  rw [onNodes, leads_part]
  refine (idles _).mono ?_ ?_
  · exact fun _ _ idle => ⟨idle.engine, idle.pool⟩
  · exact fun _ _ idle => ⟨idle.engine, idle.pool⟩

theorem quiet_clear : Obeys Quiet (clear : Op (Tree α) Unit) :=
  obeys_bind (quiet_onNodes (Vector.idles_truncate 0)) fun _ _ => ⟨rfl, rfl⟩

variable [Stored α]

theorem quiet_relink (op : Relink α β) : Obeys Quiet (Op.alone op.run) := by
  intro host
  rw [leads_alone]
  refine (steady_relink op host.container).mono ?_ ?_
  · exact fun _ _ same => ⟨same, rfl⟩
  · exact fun _ _ same => ⟨same, rfl⟩

theorem quiet_release (slot : Nat) : Obeys Quiet (release slot : Op (Tree α) α) := by
  refine obeys_reading fun tree => ?_
  refine obeys_bind (quiet_onNodes (Vector.idles_swapErase slot)) fun node => ?_
  split
  · exact obeys_bind (quiet_relink _) fun _ => obeys_pure _
  · exact obeys_pure _

theorem quiet_eraseNode (link : Link) : Obeys Quiet (eraseNode link : Op (Tree α) α) := by
  refine obeys_reading fun tree => ?_
  split
  · exact obeys_fail _
  · rename_i slot
    refine obeys_bind (obeys_require _ _) fun _ => ?_
    exact obeys_bind (quiet_relink _) quiet_release

variable [Keyed α κ] [Ord κ]

theorem quiet_remove (k : κ) : Obeys Quiet (remove k : Op (Tree α) (Option α)) := by
  refine obeys_bind (obeys_look _) fun found => ?_
  split
  · exact obeys_pure none
  · exact obeys_map _ (quiet_eraseNode _)

theorem quiet_erase (k : κ) : Obeys Quiet (erase k : Op (Tree α) Nat) := by
  refine obeys_bind (obeys_look _) fun found => ?_
  split
  · exact obeys_pure 0
  · exact obeys_bind (quiet_eraseNode _) fun _ => obeys_pure 1

/-- Hanging the new node below another one and repairing the tree there. -/
theorem quiet_place (slot : Nat) (parent : Link) (side : Side) :
    Obeys Quiet (do
      Op.alone (Relink.hang (some slot) parent side).run
      Op.alone (Relink.repairRed (some slot)).run
      return slot : Op (Tree α) Nat) := by
  refine obeys_bind (quiet_relink _) fun _ => ?_
  exact obeys_bind (quiet_relink _) fun _ => obeys_pure slot

end Quiet

section Commands
variable {α κ : Type}

/-- A node takes at least four words. -/
theorem elementSize_node [Stored α] : elementSize (Node α) ≠ 0 := by
  have enough : 4 * 8 + (Stored.layout α).size ≤ elementSize (Node α) :=
    (alignUp_isLeast _ (Layout.pair (Layout.word.array 4) (Stored.layout α)).align_pos).1.2
  omega

variable [Keyed α κ] [Ord κ] [Stored α] {host : Host (Tree α)} {values : List α}

/-- The commands that add a value, which they do if its key is in no slot. -/
def Command.Adds (command : Command α κ) (tree : Tree α) : Prop :=
  match command with
  | .insert value | .tryInsert value => tree.Lacks (Keyed.key value)
  | _ => False

/-- A value whose key is present is not filed, and then everything stays as it is. -/
theorem Reference.Files.stays {value : α} {lift : Fault → Fault} {outcome : Except Fault (Reply α)}
    {after : Host (Tree α)} (files : Files values value host lift outcome after)
    (present : (Listing.find? (Keyed.key value) values).isSome) : after = host := by
  cases outcome with
  | ok reply =>
    obtain ⟨slot, -, -, stays⟩ := files
    exact stays present
  | error fault =>
    rw [files.2.1] at present
    cases present

theorem perform_quiet [Shown κ] [Shown α] {command : Command α κ} (portable : command.Portable)
    (inserts : ∀ value, command ≠ .insert value) (tries : ∀ value, command ≠ .tryInsert value) :
    Obeys Quiet command.perform := by
  cases command with
  | insert value => exact absurd rfl (inserts value)
  | tryInsert value => exact absurd rfl (tries value)
  | erase k => exact obeys_map _ (quiet_erase k)
  | remove k => exact obeys_map _ (quiet_remove k)
  | eraseNode link => exact obeys_map _ (quiet_eraseNode link)
  | clear => exact obeys_reply (fun _ => ⟨_, rfl⟩) quiet_clear
  | renew | renewOver _ _ | renewFrom _ => exact portable.elim
  | get _ | contains _ | iterate _ | text | ask _ => exact obeys_map _ (obeys_look _)

variable [Std.TransOrd κ]

/-- The slot of a new node is obtained before anything is linked to it. -/
theorem tryInsert_strides (represents : host.container.Represents values) (value : α) :
    Leads (tryInsert value) host (fun _ after => Stride (host.stored nodes) (after.stored nodes))
      fun _ after => Stride (host.stored nodes) (after.stored nodes) := by
  obtain ⟨shape, sound, rfl⟩ := represents
  obtain ⟨place, search, located⟩ := locate_located sound.linked sound.sorted (Keyed.key value)
  unfold tryInsert
  apply read_then search
  cases located with
  | found inside filled same => exact .idle (Std.Refl.refl _)
  | @vacant trail place parts =>
    subst place
    rw [leads_bind, onNodes, leads_part]
    refine (Vector.tryPush_opens (host.stored nodes) ⟨.leaf trail.parent, value⟩).mono ?_ fun _ _ stride => stride
    rintro _ ⟨nodes, pool⟩ ⟨items, middle, opened, engine, rfl⟩
    have more : host.container.Grown ⟨.leaf trail.parent, value⟩ { host.container with nodes } := ⟨items, rfl, rfl⟩
    apply current_then
    rw [more.size, Nat.add_sub_cancel]
    -- what is left is quiet, so the storage is the one that the push left, with one node more
    refine ((place_sure middle.pool sound parts more).and (quiet_place _ _ _ _)).mono ?_ ?_
    · rintro _ after ⟨⟨-, shape', -, -, filed⟩, quiet⟩
      have size : after.container.size = host.container.size + 1 := by
        rw [← size_values after.container, filed, Array.size_push, size_values]
      exact opened.stride (quiet.engine.trans engine) quiet.pool size
    · exact fun _ _ both => both.1.elim

variable [Shown κ] [Shown α] {command : Command α κ}

theorem perform_strides (represents : host.container.Represents values) (adds : command.Adds host.container) :
    Stride (host.stored nodes) ((command.perform.step host).after.stored nodes) := by
  apply (leads_iff_step command.perform fun _ after => Stride (host.stored nodes) (after.stored nodes)).mp
  cases command with
  | insert value => exact (leads_map _ _).mpr ((leads_orAbort _).mpr (tryInsert_strides represents value))
  | tryInsert value => exact (leads_map _ _).mpr (tryInsert_strides represents value)
  | _ => exact adds.elim

/-- Nothing is asked where no value is to be added. -/
theorem perform_idles (represents : host.container.Represents values) (portable : command.Portable)
    (others : ¬ command.Adds host.container) :
    Idle (host.stored nodes) ((command.perform.step host).after.stored nodes) := by
  obtain ⟨agrees, represents'⟩ := perform_agrees represents command
  have drops : (∀ value, command ≠ .insert value) → (∀ value, command ≠ .tryInsert value) →
      Idle (host.stored nodes) ((command.perform.step host).after.stored nodes) := by
    intro inserts tries
    apply ((perform_quiet portable inserts tries).step host).idle
    rw [represents'.size_eq, represents.size_eq]
    exact Reference.length_next_le values portable inserts tries
  cases command with
  | insert value | tryInsert value =>
    rw [agrees.stays (represents.isSome_of_not_lacks others)]
    exact Std.Refl.refl _
  | _ => exact drops nofun nofun

/-- Trees; a value is added if its key is new. -/
theorem growsByDoubling :
    GrowsByDoubling Command.perform Command.Portable Command.Adds (nodes : Tree α → Storage (Node α))
      fun id => { nodes := ⟨.heap id 0 0, #[]⟩ } := by
  refine growsByDoubling_of_strides (fun tree => ∃ values, tree.Represents values) elementSize_node
    (fun id => ⟨⟨[], represents_nil _⟩, rfl⟩) ?_
  rintro command portable host ⟨values, represents⟩
  exact ⟨⟨_, (perform_agrees represents command).2⟩,
    .of_cases (perform_strides represents) (perform_idles represents portable)⟩

end Commands

end Tree

namespace Map
variable {κ ν : Type}

/-- Another value beside a key is no further node. -/
theorem Revalued.idle {before after : Host (Map κ ν)} (revalued : before.container.Revalued after.container)
    (pool : after.pool = before.pool) : Idle (before.stored Tree.nodes) (after.stored Tree.nodes) := by
  have size := congrArg Array.size revalued.keys
  rw [Array.size_map, Array.size_map, Tree.size_values, Tree.size_values] at size
  exact ⟨revalued.engine, pool, Nat.le_of_eq size⟩

variable [Ord κ]

theorem quiet_setValue (k : κ) (value : ν) : Obeys Tree.Quiet (setValue k value : Op (Map κ ν) (Option ν)) := by
  refine obeys_reading fun tree => obeys_bind (obeys_look _) fun found => ?_
  split
  · exact obeys_pure none
  · exact obeys_bind (fun _ => ⟨rfl, rfl⟩) fun _ => obeys_pure _

/-- The commands that add a pair, which they do if its key is in no slot. -/
def Command.Adds (command : Command κ ν) (map : Map κ ν) : Prop :=
  match command with
  | .insert k _ | .tryInsert k _ => Tree.Lacks map k
  | _ => False

variable [Stored κ] [Stored ν] {host : Host (Map κ ν)} {entries : List (κ × ν)} {command : Command κ ν}

/-- Under a key that is present nothing but its value changes. -/
theorem Reference.Stores.idle {k : κ} {lift : Fault → Fault} {outcome : Except Fault (Reply κ ν)}
    {after : Host (Map κ ν)} (stores : Stores entries k host lift outcome after)
    (present : (Listing.find? k entries).isSome) : Idle (host.stored Tree.nodes) (after.stored Tree.nodes) := by
  cases outcome with
  | ok reply =>
    obtain ⟨revalued, pool⟩ := stores.2 present
    exact revalued.idle pool
  | error fault =>
    rw [stores.2.1] at present
    cases present

theorem perform_quiet [Shown κ] [Shown ν] (portable : command.Portable)
    (inserts : ∀ k value, command ≠ .insert k value) (tries : ∀ k value, command ≠ .tryInsert k value) :
    Obeys Tree.Quiet command.perform := by
  cases command with
  | insert k value => exact absurd rfl (inserts k value)
  | tryInsert k value => exact absurd rfl (tries k value)
  | setValue k value => exact obeys_map _ (quiet_setValue k value)
  | remove k => exact obeys_map _ (obeys_map _ (Tree.quiet_remove k))
  | clear => exact obeys_reply (fun _ => ⟨_, rfl⟩) Tree.quiet_clear
  | renew | renewFrom _ => exact portable.elim
  | get _ | contains _ | extreme _ | iterate _ | text | ask _ => exact obeys_map _ (obeys_look _)

variable [Std.TransOrd κ]

/-- The tree is asked for a slot only after no value was found to be overwritten. -/
theorem tryInsert_strides (represents : Tree.Represents host.container entries) (k : κ) (value : ν) :
    Leads (tryInsert k value) host (fun _ after => Stride (host.stored Tree.nodes) (after.stored Tree.nodes))
      fun _ after => Stride (host.stored Tree.nodes) (after.stored Tree.nodes) := by
  unfold tryInsert
  refine (setValue_sure represents k value).andThen ?_
  rintro answer after ⟨isAnswer, -, ⟨revalued, pool⟩, unchanged⟩
  cases found : Listing.find? k entries with
  | some entry =>
    rw [found] at isAnswer
    subst isAnswer
    exact .idle (revalued.idle pool)
  | none =>
    rw [found] at isAnswer
    obtain rfl := (unchanged found).symm
    subst isAnswer
    exact (leads_bind _ _).mpr (Tree.tryInsert_strides represents (k, value))

variable [Shown κ] [Shown ν]

theorem perform_strides (represents : Tree.Represents host.container entries) (adds : command.Adds host.container) :
    Stride (host.stored Tree.nodes) ((command.perform.step host).after.stored Tree.nodes) := by
  apply (leads_iff_step command.perform fun _ after => Stride (host.stored Tree.nodes) (after.stored Tree.nodes)).mp
  cases command with
  | insert k value => exact (leads_map _ _).mpr ((leads_orAbort _).mpr (tryInsert_strides represents k value))
  | tryInsert k value => exact (leads_map _ _).mpr (tryInsert_strides represents k value)
  | _ => exact adds.elim

/-- Nothing is asked where no pair is to be added. -/
theorem perform_idles (represents : Tree.Represents host.container entries) (portable : command.Portable)
    (others : ¬ command.Adds host.container) :
    Idle (host.stored Tree.nodes) ((command.perform.step host).after.stored Tree.nodes) := by
  obtain ⟨agrees, represents'⟩ := perform_agrees represents command
  have drops : (∀ k value, command ≠ .insert k value) → (∀ k value, command ≠ .tryInsert k value) →
      Idle (host.stored Tree.nodes) ((command.perform.step host).after.stored Tree.nodes) := by
    intro inserts tries
    apply ((perform_quiet portable inserts tries).step host).idle
    rw [represents'.size_eq, represents.size_eq]
    exact Reference.length_next_le entries portable inserts tries
  cases command with
  | insert k value | tryInsert k value => exact agrees.idle (represents.isSome_of_not_lacks others)
  | _ => exact drops nofun nofun

/-- Ordered maps; under a key that is present the value is replaced in its place. -/
theorem growsByDoubling :
    GrowsByDoubling Command.perform Command.Portable Command.Adds (Tree.nodes : Map κ ν → Storage (Node (κ × ν)))
      fun id => { nodes := ⟨.heap id 0 0, #[]⟩ } := by
  refine growsByDoubling_of_strides (fun map => ∃ entries, Tree.Represents map entries) Tree.elementSize_node
    (fun id => ⟨⟨[], Tree.represents_nil _⟩, rfl⟩) ?_
  rintro command portable host ⟨entries, represents⟩
  exact ⟨⟨_, (perform_agrees represents command).2⟩,
    .of_cases (perform_strides represents) (perform_idles represents portable)⟩

end Map

section Runs
variable {α β κ ν : Type} [Stored α] [BEq α] [Inhabited α] [Shown α] [Keyed β κ] [Ord κ] [Std.TransOrd κ] [BEq κ]
  [Std.LawfulBEqOrd κ] [Shown κ] [Stored κ] [Stored ν] [BEq ν] [Shown ν] [Stored β] [Shown β]

/-- In every container to which elements are added one at a time the greatest length so far
decides the capacity and all that was asked for, whatever the allocators refuse. -/
theorem capacity_follows_peak (sized : elementSize α ≠ 0) (pairSized : elementSize (κ × ν) ≠ 0) :
    GrowsByDoubling Vector.Command.perform Vector.Command.Gradual (fun command _ => command.Adds)
      (id : Vector α → Storage α) (fun id => ⟨.heap id 0 0, #[]⟩) ∧
    GrowsByDoubling Tree.Command.perform Tree.Command.Portable Tree.Command.Adds
      (Tree.nodes : Tree β → Storage (Node β)) (fun id => { nodes := ⟨.heap id 0 0, #[]⟩ }) ∧
    GrowsByDoubling Map.Command.perform Map.Command.Portable Map.Command.Adds
      (Tree.nodes : Map κ ν → Storage (Node (κ × ν))) (fun id => { nodes := ⟨.heap id 0 0, #[]⟩ }) ∧
    GrowsByDoubling FlatMap.Command.perform FlatMap.Command.Portable FlatMap.Command.Adds
      (id : FlatMap κ ν → Storage (κ × ν)) (fun id => ⟨.heap id 0 0, #[]⟩) ∧
    GrowsByDoubling FlatMultiMap.Command.perform FlatMultiMap.Command.Portable (fun command _ => command.Adds)
      (id : FlatMultiMap κ ν → Storage (κ × ν)) fun id => ⟨.heap id 0 0, #[]⟩ :=
  ⟨Vector.growsByDoubling sized, Tree.growsByDoubling, Map.growsByDoubling, FlatMap.growsByDoubling pairSized,
    FlatMultiMap.growsByDoubling pairSized⟩

end Runs

/-- The seventeenth of forty new keys is granted a second buffer, the thirty-third and all
later ones are refused a third. -/
theorem capacity_follows_peak_caseless : Std.TransOrd Caseless ∧ Std.LawfulBEqOrd Caseless ∧ elementSize Int64 ≠ 0 ∧
    elementSize (Caseless × Int64) ≠ 0 ∧
    Session.Follows FlatMap.Command.perform (fun peak _ step => max peak step.after.container.size)
      (Growing id FlatMap.Command.Adds .b ⟨⟨.unlimited, 0, []⟩, ⟨.liveWithin 2000, 0, []⟩⟩)
      (((List.range 40).map fun i => .tryInsert ⟨toString i⟩ i.toInt64) ++
          [.insert ⟨"7"⟩ 3, .remove ⟨"7"⟩, .tryInsert ⟨"a"⟩ 2, .insert ⟨"A"⟩ 5, .eraseAt 0, .clear] :
        List (FlatMap.Command Caseless Int64))
      ⟨⟨.heap .b 0 0, #[]⟩, ⟨⟨.unlimited, 0, []⟩, ⟨.liveWithin 2000, 0, []⟩⟩⟩ 0 := by
  have sized : elementSize Int64 ≠ 0 := by decide
  have pairSized : elementSize (Caseless × Int64) ≠ 0 := by decide
  refine ⟨inferInstance, inferInstance, sized, pairSized, ?_⟩
  obtain ⟨-, -, -, grows, -⟩ := capacity_follows_peak (β := Member Caseless) sized pairSized
  apply grows .b
  intro command member
  rcases List.mem_append.mp member with added | other
  · obtain ⟨i, -, rfl⟩ := List.mem_map.mp added
    trivial
  · simp only [List.mem_cons, List.not_mem_nil, or_false] at other
    rcases other with rfl | rfl | rfl | rfl | rfl | rfl <;> trivial

end Containers
