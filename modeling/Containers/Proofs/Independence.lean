import Containers.Proofs.FlatMapRuns
import Containers.Proofs.FlatMultiMapRuns
import Containers.Proofs.PacingTrees

/-! Storage independence. What a container does depends on the storage below it only
through the room that there is: on slots of one capacity every command that names no
capacity does what it does on a heap that grants all growth, as long as the result fits,
and panics otherwise. Keys are looked up before room is asked for, so that a full
container still accepts a key that it has. -/
namespace Containers

namespace Session
variable {σ κ ρ : Type}

/-- Whichever commands of this kind are given, both runs stay abreast. -/
def Interchangeable (perform : κ → Op σ ρ) (portable : κ → Prop) (fits : σ → Prop) (same : σ → σ → Prop)
    (free fixed : Host σ) : Prop :=
  ∀ commands, (∀ command ∈ commands, portable command) → Abreast perform fits same commands free fixed

theorem interchangeable_of_paces {perform : κ → Op σ ρ} {portable : κ → Prop} {fits : σ → Prop} {same : σ → σ → Prop}
    {like : Host σ → Host σ → Prop} {free fixed : Host σ} (alike : like free fixed)
    (shows : ∀ free fixed, like free fixed → same free.container fixed.container)
    (keeps : ∀ command, portable command → ∀ free fixed, like free fixed →
      Paces fits like (perform command) free fixed) :
    Interchangeable perform portable fits same free fixed :=
  fun commands each => abreast_of_step shows keeps commands each alike

/-- What holds in every state of every run of commands of this kind. -/
def Always (perform : κ → Op σ ρ) (portable : κ → Prop) (start : Host σ) (holds : Host σ → Prop) : Prop :=
  ∀ commands, (∀ command ∈ commands, portable command) → ∀ host ∈ states perform commands start, holds host

theorem always_of_step {perform : κ → Op σ ρ} {portable : κ → Prop} {start : Host σ} {holds : Host σ → Prop}
    (invariant : Host σ → Prop) (initial : invariant start) (implies : ∀ host, invariant host → holds host)
    (keeps : ∀ command, portable command → ∀ host, invariant host → invariant ((perform command).step host).after) :
    Always perform portable start holds :=
  fun commands each host member => implies host (states_keep_of invariant keeps commands each initial host member)

end Session

section Aborting
variable {σ β : Type} {op : Op σ β} {host after : Host σ}

theorem orAbort_answers {answer : β} (answers : op host = .ok answer after) :
    Op.orAbort op host = .ok answer after := by
  simp only [Op.orAbort, answers]

theorem orAbort_cramped {fault : Fault} (fails : op host = .error fault after) (cramped : fault.Cramped) :
    Op.orAbort op host = .error fault after := by
  cases cramped with
  | fixed requested capacity => simp only [Op.orAbort, fails]
  | overflow => simp only [Op.orAbort, fails]

end Aborting

namespace Tree
variable {α κ : Type} [Keyed α κ] [Ord κ] [Stored α]

/-- Inserting under a key that some node has changes nothing and succeeds, whether or
not there is room. -/
def AcceptsPresent (host : Host (Tree α)) : Prop :=
  ∀ value, (∃ node ∈ host.container.nodes.items, compare (Keyed.key node.value) (Keyed.key value) = .eq) →
    ∃ slot, tryInsert value host = .ok slot host ∧ insert value host = .ok slot host

variable {host : Host (Tree α)} {values : List α}

omit [Stored α] in
/-- Every node is in the order. -/
theorem Represents.find?_isSome {k : κ} (represents : host.container.Represents values)
    (present : ∃ node ∈ host.container.nodes.items, compare (Keyed.key node.value) k = .eq) :
    (Listing.find? k values).isSome := by
  obtain ⟨shape, sound, rfl⟩ := represents
  obtain ⟨node, member, same⟩ := present
  have filed : node.value ∈ host.container.values := Array.mem_map_of_mem member
  exact List.find?_isSome.mpr ⟨node.value, sound.mem_listing.mpr filed, decide_eq_true same⟩

theorem acceptsPresent [Std.TransOrd κ] (represents : host.container.Represents values) : AcceptsPresent host := by
  intro value present
  have isPresent := represents.find?_isSome present
  have files := tryInsert_files represents value
  rw [Leads] at files
  split at files
  · rename_i slot after ran
    obtain rfl := files.2.2 isPresent
    exact ⟨slot, ran, orAbort_answers ran⟩
  · rw [files.2.1] at isPresent
    cases isPresent

theorem always_acceptsPresent [Std.TransOrd κ] [Shown κ] [Shown α] (represents : host.container.Represents values) :
    Session.Always Command.perform Command.Portable host AcceptsPresent := by
  refine Session.always_of_step (fun host => ∃ values, host.container.Represents values) ⟨values, represents⟩ ?_ ?_
  · exact fun later ⟨_, represents'⟩ => acceptsPresent represents'
  · exact fun command _ later ⟨_, represents'⟩ => ⟨_, (perform_agrees represents' command).2⟩

end Tree

namespace Map
variable {κ ν : Type} [Ord κ] [Stored κ] [Stored ν]

/-- Inserting under a key that some node has replaces the value there and succeeds,
whether or not there is room. -/
def AcceptsPresent (host : Host (Map κ ν)) : Prop :=
  ∀ k value, (∃ node ∈ host.container.nodes.items, compare node.value.1 k = .eq) →
    ∃ old after, tryInsert k value host = .ok (some old) after ∧ insert k value host = .ok (some old) after

theorem acceptsPresent [Std.TransOrd κ] {host : Host (Map κ ν)} {entries : List (κ × ν)}
    (represents : Tree.Represents host.container entries) : AcceptsPresent host := by
  intro k value present
  have isPresent := represents.find?_isSome present
  have stores := tryInsert_stores represents k value
  rw [Leads] at stores
  split at stores
  · rename_i answer after ran
    obtain ⟨⟨key, old⟩, found⟩ := Option.isSome_iff_exists.mp isPresent
    rw [stores.1, found] at ran
    exact ⟨old, after, ran, orAbort_answers ran⟩
  · rw [stores.2.1] at isPresent
    cases isPresent

theorem always_acceptsPresent [Std.TransOrd κ] [Shown κ] [Shown ν] {host : Host (Map κ ν)} {entries : List (κ × ν)}
    (represents : Tree.Represents host.container entries) :
    Session.Always Command.perform Command.Portable host AcceptsPresent := by
  refine Session.always_of_step (fun host => ∃ entries, Tree.Represents host.container entries)
    ⟨entries, represents⟩ ?_ ?_
  · exact fun later ⟨_, represents'⟩ => acceptsPresent represents'
  · exact fun command _ later ⟨_, represents'⟩ => ⟨_, (perform_agrees represents' command).2⟩

end Map

namespace FlatMap
variable {κ ν : Type} [Ord κ] [BEq κ] [Stored κ] [Stored ν]

/-- Inserting under a key that some pair has changes nothing and succeeds, whether or not
there is room. -/
def AcceptsPresent (host : Host (FlatMap κ ν)) : Prop :=
  ∀ k value, (∃ pair ∈ host.container.items, compare pair.1 k = .eq) →
    ∃ place, tryInsert k value host = .ok (place, false) host ∧ insert k value host = .ok (place, false) host

variable [Std.TransOrd κ] [Std.LawfulBEqOrd κ] {host : Host (FlatMap κ ν)} {entries : List (κ × ν)}

theorem acceptsPresent (holds : Vector.Holds host.container entries) (sorted : Sorted entries) :
    AcceptsPresent host := by
  rintro k value ⟨pair, member, same⟩
  have isPresent : (Listing.find? k entries).isSome := by
    rw [← Array.mem_toList_iff, holds.items_eq] at member
    exact List.find?_isSome.mpr ⟨pair, member, decide_eq_true same⟩
  obtain ⟨first, found⟩ := Option.isSome_iff_exists.mp isPresent
  have place : host.container.findIdx? k = some (Listing.countBelow k entries) := by
    rw [findIdx?_eq holds.items_eq sorted, found]
    rfl
  have ran : tryInsert k value host = .ok (Listing.countBelow k entries, false) host := by
    rw [tryInsert_eq]
    simp only [bind, EStateM.bind, Op.current, place]
    rfl
  exact ⟨_, ran, orAbort_answers ran⟩

theorem always_acceptsPresent (holds : Vector.Holds host.container entries) (sorted : Sorted entries) :
    Session.Always Command.perform Command.Portable host AcceptsPresent := by
  refine Session.always_of_step (fun host => ∃ entries, Vector.Holds host.container entries ∧ Sorted entries)
    ⟨entries, holds, sorted⟩ ?_ ?_
  · rintro later ⟨_, holds', sorted'⟩
    exact acceptsPresent holds' sorted'
  · rintro command - later ⟨_, holds', sorted'⟩
    have matched := perform_matches holds' sorted' command
    exact ⟨_, matched.holds, matched.sorted⟩

end FlatMap

namespace FlatMultiMap
variable {κ ν : Type} [Ord κ] [Stored κ] [Stored ν]

/-- With every slot taken, inserting panics for want of room. -/
def RejectsFull (room : Nat) (host : Host (FlatMultiMap κ ν)) : Prop :=
  host.container.size = room → ∀ k value, ∃ fault after, fault.Cramped ∧
    tryInsert k value host = .error fault after ∧ insert k value host = .error fault after

variable [Std.TransOrd κ] {room : Nat} {host : Host (FlatMultiMap κ ν)} {survivors : List (κ × ν)}

theorem rejectsFull (holds : Vector.Holds host.container (Listing.arrange survivors))
    (inline : host.container.engine = .inline room) : RejectsFull room host := by
  intro full k value
  have meets := (tryInsert_meets holds k value).and ((managed_tryInsert k value).inline inline)
  rw [Leads] at meets
  split at meets
  · rename_i answer after ran
    obtain ⟨⟨left, ⟨⟩, holds'⟩, inline'⟩ := meets
    have capacity : after.container.capacity = room := congrArg Engine.capacity inline'
    have before := holds.length
    have more := holds'.room
    rw [Listing.length_arrange] at before
    rw [capacity, Listing.length_arrange, List.length_append, ← before] at more
    have isFull : host.container.items.size = room := full
    simp only [List.length_singleton] at more
    omega
  · rename_i fault after ran
    obtain ⟨⟨⟨⟩, -⟩ | ⟨-, -, stuck⟩, -⟩ := meets
    exact ⟨fault, after, stuck.cramped inline, ran, orAbort_cramped ran (stuck.cramped inline)⟩

theorem always_rejectsFull [BEq ν] (holds : Vector.Holds host.container (Listing.arrange survivors))
    (inline : host.container.engine = .inline room) :
    Session.Always Command.perform Command.Portable host (RejectsFull room) := by
  refine Session.always_of_step (fun host => (∃ survivors, Vector.Holds host.container (Listing.arrange survivors)) ∧
    host.container.engine = .inline room) ⟨⟨survivors, holds⟩, inline⟩ ?_ ?_
  · rintro later ⟨⟨_, holds'⟩, inline'⟩
    exact rejectsFull holds' inline'
  · rintro command - later ⟨⟨_, holds'⟩, inline'⟩
    constructor
    · exact ⟨_, (perform_matches holds' command).holds⟩
    · exact (leads_iff_step command.perform fun _ after => after.container.engine = .inline room).mp
        ((managed_perform command).inline inline')

end FlatMultiMap

section Runs
variable {α β κ ν : Type} [Stored α] [BEq α] [Inhabited α] [Shown α] [Stored β] [Keyed β κ] [Shown β] [Ord κ]
  [Std.TransOrd κ] [BEq κ] [Std.LawfulBEqOrd κ] [Shown κ] [Stored κ] [Shown ν] [Stored ν] [BEq ν]

/-- Slots of one capacity do for every container what a heap does that grants all growth,
as long as what is left fits: all commands end in the same way and leave the same
elements, and for the trees the same value, colour and links in every slot. What would
not fit panics. Where the room is used up, a tree and a sorted map still take a key that
they have, and a sorted multimap takes nothing. -/
theorem runs_need_only_room (id : AllocatorId) (room : Nat) (pool pool' : Pool) :
    (Session.Interchangeable Vector.Command.perform Vector.Command.Portable (·.size ≤ room)
        (fun free fixed => fixed = free.onto (.inline room))
        (⟨⟨.heap id 0 0, #[]⟩, pool⟩ : Host (Vector α)) ⟨⟨.inline room, #[]⟩, pool'⟩ ∧
      Session.Interchangeable FlatMap.Command.perform FlatMap.Command.Portable (·.size ≤ room)
        (fun free fixed => fixed = free.onto (.inline room))
        (⟨⟨.heap id 0 0, #[]⟩, pool⟩ : Host (FlatMap κ ν)) ⟨⟨.inline room, #[]⟩, pool'⟩ ∧
      Session.Interchangeable FlatMultiMap.Command.perform FlatMultiMap.Command.Portable (·.size ≤ room)
        (fun free fixed => fixed = free.onto (.inline room))
        (⟨⟨.heap id 0 0, #[]⟩, pool⟩ : Host (FlatMultiMap κ ν)) ⟨⟨.inline room, #[]⟩, pool'⟩ ∧
      Session.Interchangeable Tree.Command.perform Tree.Command.Portable (·.size ≤ room)
        (fun free fixed => fixed = free.onto (.inline room))
        (⟨{ nodes := ⟨.heap id 0 0, #[]⟩ }, pool⟩ : Host (Tree β)) ⟨{ nodes := ⟨.inline room, #[]⟩ }, pool'⟩ ∧
      Session.Interchangeable Map.Command.perform Map.Command.Portable (·.size ≤ room)
        (fun free fixed => fixed = free.onto (.inline room))
        (⟨{ nodes := ⟨.heap id 0 0, #[]⟩ }, pool⟩ : Host (Map κ ν)) ⟨{ nodes := ⟨.inline room, #[]⟩ }, pool'⟩) ∧
    Session.Always Tree.Command.perform Tree.Command.Portable
      (⟨{ nodes := ⟨.inline room, #[]⟩ }, pool'⟩ : Host (Tree β)) Tree.AcceptsPresent ∧
    Session.Always Map.Command.perform Map.Command.Portable
      (⟨{ nodes := ⟨.inline room, #[]⟩ }, pool'⟩ : Host (Map κ ν)) Map.AcceptsPresent ∧
    Session.Always FlatMap.Command.perform FlatMap.Command.Portable
      (⟨⟨.inline room, #[]⟩, pool'⟩ : Host (FlatMap κ ν)) FlatMap.AcceptsPresent ∧
    Session.Always FlatMultiMap.Command.perform FlatMultiMap.Command.Portable
      (⟨⟨.inline room, #[]⟩, pool'⟩ : Host (FlatMultiMap κ ν)) (FlatMultiMap.RejectsFull room) := by
  have empty : ∀ {α : Type}, Vector.Level room (⟨⟨.heap id 0 0, #[]⟩, pool⟩ : Host (Vector α))
      ⟨⟨.inline room, #[]⟩, pool'⟩ := ⟨rfl, Nat.zero_le _, Nat.zero_le _⟩
  have bare : ∀ {τ : Type} [Keyed τ κ], Tree.Level room (⟨{ nodes := ⟨.heap id 0 0, #[]⟩ }, pool⟩ : Host (Tree τ))
      ⟨{ nodes := ⟨.inline room, #[]⟩ }, pool'⟩ := ⟨rfl, Nat.zero_le _, [], Tree.represents_nil _⟩
  refine ⟨⟨?_, ?_, ?_, ?_, ?_⟩, ?_, ?_, ?_, ?_⟩
  · exact Session.interchangeable_of_paces empty (fun _ _ level => level.same)
      fun _ portable _ _ level => Vector.perform_paces portable level
  · exact Session.interchangeable_of_paces empty (fun _ _ level => level.same)
      fun _ portable _ _ level => FlatMap.perform_paces portable level
  · exact Session.interchangeable_of_paces empty (fun _ _ level => level.same)
      fun _ portable _ _ level => FlatMultiMap.perform_paces portable level
  · exact Session.interchangeable_of_paces bare (fun _ _ level => level.same)
      fun _ portable _ _ level => Tree.perform_paces portable level
  · exact Session.interchangeable_of_paces bare (fun _ _ level => level.same)
      fun _ portable _ _ level => Map.perform_paces portable level
  · exact Tree.always_acceptsPresent (Tree.represents_nil _)
  · exact Map.always_acceptsPresent (Tree.represents_nil _)
  · exact FlatMap.always_acceptsPresent (Vector.holds_empty _) .nil
  · have empty : Vector.Holds (⟨.inline room, #[]⟩ : FlatMultiMap κ ν) (Listing.arrange []) := by
      rw [Listing.arrange_nil]
      exact Vector.holds_empty _
    exact FlatMultiMap.always_rejectsFull empty rfl

/-- Keys that differ in the case of a letter only are equal in the order. -/
theorem runs_need_only_room_caseless : Std.TransOrd Caseless ∧ Std.LawfulBEqOrd Caseless ∧
    Session.Abreast Map.Command.perform (·.size ≤ 2) (fun free fixed => fixed = free.onto (.inline 2))
      [.insert ⟨"b"⟩ 1, .insert ⟨"a"⟩ 2, .insert ⟨"B"⟩ 3, .iterate 2, .insert ⟨"c"⟩ 4]
      (⟨{ nodes := ⟨.heap .a 0 0, #[]⟩ }, ⟨⟨.unlimited, 0, []⟩, ⟨.unlimited, 0, []⟩⟩⟩ : Host (Map Caseless Int64))
      ⟨{ nodes := ⟨.inline 2, #[]⟩ }, ⟨⟨.unlimited, 0, []⟩, ⟨.unlimited, 0, []⟩⟩⟩ := by
  refine ⟨inferInstance, inferInstance, (runs_need_only_room (α := Int64) (β := Member Caseless) .a 2 _ _).1.2.2.2.2 _ ?_⟩
  simp [Map.Command.Portable]

end Runs

end Containers
