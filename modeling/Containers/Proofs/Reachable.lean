import Containers.Proofs.MapRuns
import Containers.Proofs.Validation

/-! What every reachable tree is like. The invariant is said here by its parts,
about the records of the arena and without reference to what a tree stands for. -/
namespace Containers

namespace Tree
variable {α κ : Type} [Keyed α κ] [Ord κ]

/-- A red-black tree over the whole arena. The links from the root on, and the
parent links against them, spell out a shape that has every slot once; its root
is black, no red node has a red child, and all ways down pass equally many black
nodes; the keys increase; the sentinel is at rest and is the root just when there
is no node; and the check finds nothing wrong. -/
structure WellFormed (tree : Tree α) (shape : Shape) (rank : Nat) : Prop where
  root : tree.root = shape.link
  links : shape.Holds tree.record none
  reached : shape.slots.Perm (List.range tree.size)
  black : shape.color = .black
  apart : shape.RedsApart
  even : ∀ count ∈ shape.blackCounts, count = rank
  increasing : ((tree.listing shape.slots).map Keyed.key).Pairwise fun a b : κ => compare a b = .lt
  counted : (tree.listing shape.slots).length = tree.size
  sentinel : tree.sentinel = ⟨none, none, none, .black⟩
  empty : tree.isEmpty = true ↔ tree.size = 0
  valid : tree.validate = .ok (rank + 1)

theorem Represents.wellFormed {tree : Tree α} {values : List α} (represents : tree.Represents values) :
    ∃ shape rank, tree.WellFormed shape rank := by
  obtain ⟨shape, sound, rfl⟩ := represents
  obtain ⟨rank, balanced⟩ := sound.balanced
  obtain ⟨apart, even⟩ := Shape.balanced_iff.mp balanced
  exact ⟨shape, rank, sound.linked.root, sound.linked.holds, sound.perm, sound.black, apart, even,
    List.pairwise_map.mpr sound.sorted, sound.size_eq.symm, sound.sentinel, sound.isEmpty_iff,
    sound.validate_eq balanced⟩

end Tree

section Runs
variable {α κ ν : Type} [Keyed α κ] [Ord κ] [Std.TransOrd κ] [Shown κ] [Shown ν] [Shown α] [Stored κ]
  [Stored ν] [Stored α]

/-- The trees and the maps of all runs are red-black trees in every state, on any
storage, whatever the allocators refuse and whatever the commands are. -/
theorem reachable_wellFormed (engine : Engine) (pool : Pool) (commands : List (Tree.Command α κ))
    (mapCommands : List (Map.Command κ ν)) :
    (∀ host ∈ Session.states Tree.Command.perform commands ⟨{ nodes := ⟨engine, #[]⟩ }, pool⟩,
      ∃ shape rank, host.container.WellFormed shape rank) ∧
    ∀ host ∈ Session.states Map.Command.perform mapCommands ⟨{ nodes := ⟨engine, #[]⟩ }, pool⟩,
      ∃ shape rank, Tree.WellFormed host.container shape rank := by
  have fresh : ∀ {β : Type} [Keyed β κ], ∃ values : List β,
      Tree.Represents { nodes := ⟨engine, #[]⟩ } values :=
    ⟨[], .leaf, Tree.sound_leaf rfl rfl rfl, rfl⟩
  constructor
  · have represented : ∀ host ∈ Session.states Tree.Command.perform commands ⟨{ nodes := ⟨engine, #[]⟩ }, pool⟩,
        ∃ values, host.container.Represents values := by
      apply Session.states_keep (fun host => ∃ values, Tree.Represents host.container values) _ commands fresh
      rintro command host ⟨values, represents⟩
      exact ⟨_, (Tree.perform_agrees represents command).2⟩
    intro host member
    obtain ⟨values, represents⟩ := represented host member
    exact represents.wellFormed
  · have represented : ∀ host ∈ Session.states Map.Command.perform mapCommands
        ⟨{ nodes := ⟨engine, #[]⟩ }, pool⟩, ∃ entries, Tree.Represents host.container entries := by
      apply Session.states_keep (fun host => ∃ entries, Tree.Represents host.container entries) _ mapCommands fresh
      rintro command host ⟨entries, represents⟩
      exact ⟨_, (Map.perform_agrees represents command).2⟩
    intro host member
    obtain ⟨entries, represents⟩ := represented host member
    exact represents.wellFormed

end Runs

/-- Keys that differ in the case of a letter only are equal in the order. -/
theorem reachable_wellFormed_caseless : Std.TransOrd Caseless ∧
    ∀ host ∈ Session.states Map.Command.perform
        [.insert ⟨"ab"⟩ (1 : Int64), .insert ⟨"AB"⟩ 2, .insert ⟨"c"⟩ 3, .remove ⟨"Ab"⟩]
        ⟨{ nodes := ⟨.inline 2, #[]⟩ }, ⟨⟨.unlimited, 0, []⟩, ⟨.unlimited, 0, []⟩⟩⟩,
      ∃ shape rank, Tree.WellFormed (κ := Caseless) host.container shape rank :=
  ⟨inferInstance, (reachable_wellFormed (α := Member Caseless) (.inline 2) _ [] _).2⟩

namespace Tree
variable {κ : Type} [Ord κ]

/-- The trees that runs lead to, those under maps included: on any storage, whatever the
allocators refuse and whatever the commands are. -/
inductive Reachable : {α : Type} → [Keyed α κ] → Tree α → Prop
  | ofTree {α : Type} [Keyed α κ] [Shown κ] [Shown α] [Stored α] (engine : Engine) (pool : Pool)
      (commands : List (Command α κ)) {host : Host (Tree α)}
      (member : host ∈ Session.states Command.perform commands ⟨{ nodes := ⟨engine, #[]⟩ }, pool⟩) :
      Reachable host.container
  | ofMap {ν : Type} [Shown κ] [Shown ν] [Stored κ] [Stored ν] (engine : Engine) (pool : Pool)
      (commands : List (Map.Command κ ν)) {host : Host (Map κ ν)}
      (member : host ∈ Session.states Map.Command.perform commands ⟨{ nodes := ⟨engine, #[]⟩ }, pool⟩) :
      Reachable host.container

theorem Reachable.represents [Std.TransOrd κ] {α : Type} [Keyed α κ] {tree : Tree α} (reachable : tree.Reachable) :
    ∃ values, tree.Represents values := by
  cases reachable with
  | ofTree engine pool commands member => exact states_represent engine pool commands _ member
  | ofMap engine pool commands member => exact Map.states_represent engine pool commands _ member

section Grown
variable [Shown κ] [Stored κ]

/-- The tree that filing these keys in turn leads to. -/
def grown (keys : List κ) : Tree (Member κ) :=
  ((Session.states Command.perform (keys.map fun k => Command.insert (Member.mk k))
    ⟨{ nodes := ⟨.heap .a 0 0, #[]⟩ }, ⟨⟨.unlimited, 0, []⟩, ⟨.unlimited, 0, []⟩⟩⟩).getLast nofun).container

theorem grown_reachable (keys : List κ) : (grown keys).Reachable :=
  .ofTree (.heap .a 0 0) _ _ (List.getLast_mem _)

end Grown

end Tree

end Containers
