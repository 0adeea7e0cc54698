import Containers.Proofs.ManagedTrees
import Containers.Proofs.Reachable
import Containers.Proofs.Resuming
import Containers.Proofs.SparingTrees
import Containers.Proofs.VectorRuns

/-! Failed commands. A command that is refused memory or finds a condition broken leaves
the container as it was, down to its buffer and, in a tree, every link and colour, and
the run goes on as if the command had not been given. Only assigning to a vector drops
the elements first, and only extending one may have appended some of its elements. -/
namespace Containers

section Traces
variable {σ κ ρ : Type} {asked : Option Layout} {before after : Host σ} {fault : Fault}

/-- The failed command left everything as before, but for the note that exactly the
layout it asked for was refused; the run goes on as from before, where after a refusal
this takes allocators that do not look at what they refused. -/
structure Undone (perform : κ → Op σ ρ) (before : Host σ) (asked : Option Layout) (fault : Fault)
    (after : Host σ) : Prop where
  spared : Spared before asked fault after
  resumes : fault.layout? = none ∨ before.pool.Forgetful → Session.Resumes perform before after

theorem Pool.Forgetful.alike_noting {pool : Pool} (forgetful : pool.Forgetful) (id : AllocatorId) (layout : Layout) :
    pool.Alike (pool.noting id layout) := by
  intro asked
  rw [noting, get_set]
  split
  · rename_i same
    exact same ▸ ⟨rfl, forgetful _, rfl, rfl⟩
  · exact forgetful.alike asked

theorem Spared.undone [Buffered σ] {perform : κ → Op σ ρ} (managed : ∀ command, Managed (perform command))
    (spared : Spared before asked fault after) : Undone perform before asked fault after := by
  refine ⟨spared, fun blind => ?_⟩
  cases spared with
  | untouched plain => exact fun _ => rfl
  | @refused layout id named wanted refuses =>
    rcases blind with plain | forgetful
    · rw [plain] at named
      cases named
    · exact Session.resumes_of_alike managed ⟨rfl, forgetful.alike_noting id layout⟩

theorem Spares.undone [Buffered σ] {perform : κ → Op σ ρ} {command : κ}
    (managed : ∀ command, Managed (perform command)) (spares : Spares asked (perform command) before) :
    Leads (perform command) before (fun _ _ => True) (Undone perform before asked) :=
  Leads.mono spares (fun _ _ _ => trivial) fun _ _ spared => spared.undone managed

/-- Whatever another vector is filled with, the one there is stays if that fails; the
allocators may do so under a condition. -/
theorem Vector.renew_provided {α : Type} [Stored α] {host : Host (Vector α)} {fill : Op (Vector α) Unit} {reply : ρ}
    {condition : Prop} {failed : Fault → Host (Vector α) → Prop}
    (fails : condition → Leads (do renew fill; return reply) host (fun _ _ => True) failed) :
    Leads (do renew fill; return reply) host (fun _ _ => True) fun fault after =>
      after.container = host.container ∧ (condition → failed fault after) := by
  have keeps : Leads (do renew fill; return reply) host (fun _ _ => True)
      fun _ after => after.container = host.container := by
    rw [leads_bind]
    exact (renew_keeps fill).mono (fun _ _ _ => trivial) fun _ _ kept => kept
  by_cases met : condition
  · exact (keeps.and (fails met)).mono (fun _ _ _ => trivial) fun _ _ both => ⟨both.1, fun _ => both.2⟩
  · exact keeps.mono (fun _ _ _ => trivial) fun _ _ kept => ⟨kept, fun holds => absurd holds met⟩

/-- In every state of every run a command that fails leaves what it should. -/
def Session.FailsAs (perform : κ → Op σ ρ) (fails : κ → Host σ → Fault → Host σ → Prop) (start : Host σ) : Prop :=
  ∀ commands, ∀ host ∈ states perform commands start, (start.pool.Forgetful → host.pool.Forgetful) ∧
    ∀ command fault after, perform command host = .error fault after → fails command host fault after

theorem Pool.Dealt.forgetful {start pool : Pool} (dealt : start.Dealt pool) (forgetful : start.Forgetful) :
    pool.Forgetful := by
  have keeps : ∀ {pool : Pool} {allocator : Allocator} (id : AllocatorId), pool.Forgetful →
      allocator.rule = (pool.get id).rule → (pool.set allocator id).Forgetful := by
    intro pool allocator id forgetful same asked
    rw [Pool.get_set]
    split
    · exact same ▸ forgetful id
    · exact forgetful asked
  induction dealt with
  | start => exact forgetful
  | @allocated pool id layout _ ih =>
    have same : ((pool.get id).allocate layout).2.rule = (pool.get id).rule := by
      unfold Allocator.allocate
      split
      · rfl
      · rfl
    exact keeps id ih same
  | freed id block _ ih => exact keeps id ih rfl

/-- What holds in every state of a run may be used of the commands that fail there. -/
theorem Session.failsAs_of_leads [Buffered σ] {perform : κ → Op σ ρ} {fails : κ → Host σ → Fault → Host σ → Prop}
    {start : Host σ} (managed : ∀ command, Managed (perform command)) (holds : Host σ → Prop) (initial : holds start)
    (keeps : ∀ command host, holds host → holds ((perform command).step host).after)
    (each : ∀ command host, holds host → Leads (perform command) host (fun _ _ => True) (fails command host)) :
    FailsAs perform fails start := by
  intro commands host member
  have kept : holds host ∧ start.pool.Dealt host.pool := by
    refine states_keep (fun host => holds host ∧ start.pool.Dealt host.pool) ?_ commands ⟨initial, .start⟩ host member
    rintro command host ⟨holds', dealt⟩
    refine ⟨keeps command host holds', dealt.trans ?_⟩
    exact (leads_iff_step (perform command) fun _ after => host.pool.Dealt after.pool).mp ((managed command).deals host)
  refine ⟨kept.2.forgetful, fun command fault after ran => ?_⟩
  have leads := each command host kept.1
  rwa [Leads, ran] at leads

end Traces

/-- A failed command of a bare storage did nothing. -/
def Storage.Command.Fails {α : Type} [Stored α] (command : Command α) (host : Host (Storage α)) (fault : Fault)
    (after : Host (Storage α)) : Prop :=
  Undone perform host command.asks fault after

namespace Vector
variable {α : Type} [Stored α] [BEq α] [Inhabited α] [Shown α]

/-- Elements are pushed one by one, and there was no room for one of them: those before
it stay, as if only they had been given, and pushing the one did nothing. -/
def Interrupted (given : List α) (promised : Nat) (host : Host (Vector α)) (fault : Fault)
    (after : Host (Vector α)) : Prop :=
  ∃ (count : Nat) (middle : Host (Vector α)), count < given.length ∧
    extendHinted (given.take count) promised host = .ok () middle ∧
    middle.container.items.toList = host.container.items.toList ++ given.take count ∧
    Undone Command.perform middle (slots α (doubled middle.container.capacity)) fault after

/-- A failed command did nothing, but for assigning, which cleared the vector before,
and extending, which may have been interrupted. What is collected in another vector
leaves nothing of that one, if the elements can be counted. -/
def Command.Fails (command : Command α) (host : Host (Vector α)) (fault : Fault) (after : Host (Vector α)) : Prop :=
  match command with
  | .assign _ => Undone perform (cleared host) (command.asks host.container) fault after
  | .tryAssign _ => Undone perform (cleared host) (command.asks host.container) fault after
  | .extend given => Undone perform host (command.asks host.container) fault after ∨
      Interrupted given given.length host fault after
  | .extendHinted given promised => Undone perform host (command.asks host.container) fault after ∨
      Interrupted given promised host fault after
  | .collect given => after.container = host.container ∧
      (given.length ≤ maxCount → Undone perform host (command.asks host.container) fault after)
  | _ => Undone perform host (command.asks host.container) fault after

variable {host : Host (Vector α)}

theorem perform_fails {items : List α} (holds : Holds host.container items) (command : Command α) :
    Leads command.perform host (fun _ _ => True) (command.Fails host) := by
  have plain : ∀ {command : Command α}, Spares (command.asks host.container) command.perform host →
      Leads command.perform host (fun _ _ => True) (Undone Command.perform host (command.asks host.container)) :=
    Spares.undone managed_perform
  have appending : ∀ given promised, Leads (do extendHinted given promised; return (.done : Reply α)) host
      (fun _ _ => True) fun fault after => Undone Command.perform host
        (slots α (host.container.capacityFor (min (host.container.size + promised) maxCount))) fault after ∨
          Interrupted given promised host fault after := by
    intro given promised
    rw [leads_bind]
    apply (extendHinted_spares holds given promised).mono (fun _ _ _ => trivial)
    rintro fault after (spared | ⟨count, middle, short, reached, contents, spared⟩)
    · exact .inl (spared.undone managed_perform)
    · rw [← holds.items_eq] at contents
      exact .inr ⟨count, middle, short, reached, contents, spared.undone managed_perform⟩
  cases command with
  | push x => exact plain (spares_bind (push_spares x) fun _ _ => trivial)
  | tryPush x => exact plain (spares_bind (tryPush_spares x) fun _ _ => trivial)
  | pushDefault => exact plain (spares_bind (push_spares default) fun _ _ => trivial)
  | insert position x => exact plain (spares_map _ (spares_orAbort (tryInsert_spares position x)))
  | tryInsert position x => exact plain (spares_map _ (tryInsert_spares position x))
  | insertMany position n x => exact plain (spares_map _ (spares_orAbort (tryInsertMany_spares position n x)))
  | tryInsertMany position n x => exact plain (spares_map _ (tryInsertMany_spares position n x))
  | remove position => exact plain (spares_map _ (remove_spares position))
  | erase position => exact plain (spares_map _ (erase_spares position))
  | eraseRange start stop => exact plain (spares_map _ (eraseRange_spares start stop))
  | swapErase position => exact plain (spares_map _ (swapErase_spares position))
  | resize size => exact plain (spares_bind (resize_spares size) fun _ _ => trivial)
  | resizeWith size x => exact plain (spares_bind (resizeWith_spares size x) fun _ _ => trivial)
  | reserve capacity => exact plain (spares_bind (spares_orAbort (tryReserve_spares capacity)) fun _ _ => trivial)
  | tryReserve capacity => exact plain (spares_bind (tryReserve_spares capacity) fun _ _ => trivial)
  | setCapacity capacity =>
    exact plain (spares_bind (spares_orAbort (Storage.reallocate_spares capacity)) fun _ _ => trivial)
  | assign given =>
    refine (leads_bind _ _).mpr ((leads_orAbort _).mpr ?_)
    exact (tryAssign_spares given).mono (fun _ _ _ => trivial) fun _ _ spared => spared.abort.undone managed_perform
  | tryAssign given =>
    apply (leads_bind _ _).mpr
    exact (tryAssign_spares given).mono (fun _ _ _ => trivial) fun _ _ spared => spared.undone managed_perform
  | extend given => exact appending given given.length
  | extendHinted given promised => exact appending given promised
  | get position => exact plain (spares_map _ (get_spares position))
  | front => exact plain (spares_map _ front_spares)
  | back => exact plain (spares_map _ back_spares)
  | item position => exact plain (spares_map _ (item_spares position))
  | set position x => exact plain (spares_bind (set_spares position x) fun _ _ => trivial)
  | setFront x => exact plain (spares_bind (setFront_spares x) fun _ _ => trivial)
  | setBack x => exact plain (spares_bind (setBack_spares x) fun _ _ => trivial)
  | setItem position x => exact plain (spares_bind (setItem_spares position x) fun _ _ => trivial)
  | findFrom x start => exact plain (spares_map _ (findFrom_spares x start))
  | clone => exact plain (spares_reading (spares_bind (clone_spares holds) fun _ _ => trivial))
  | becomeClone => exact plain (spares_reading (spares_bind (clone_spares holds) fun _ _ => trivial))
  | renewSized size => exact plain (spares_bind (renew_spares (resize_spares size)) fun _ _ => trivial)
  | renewFrom given =>
    exact plain (spares_bind (renew_spares (spares_orAbort (tryAssign_spares given))) fun _ _ => trivial)
  | collect given =>
    refine renew_provided fun counted => ?_
    have collects : Spares (Command.asks host.container (.collect given)) (Command.collect given).perform host :=
      spares_bind (renew_spares (collect_spares _ _ counted)) fun _ _ => trivial
    exact plain collects
  | pop | truncate _ | clear | reset | modifyEach _ | isEmpty | find _ | compare _ | text | drain _ | renew
  | overStorage | allocator | setAllocator _ => exact trivial

end Vector

section Flat
variable {κ ν : Type} [Ord κ] [Stored κ] [Stored ν]

/-- A failed command did nothing. What is collected in another map leaves nothing of
that one, if the pairs can be counted. -/
def FlatMap.Command.Fails [BEq κ] (command : Command κ ν) (host : Host (FlatMap κ ν)) (fault : Fault)
    (after : Host (FlatMap κ ν)) : Prop :=
  match command with
  | .renewFrom pairs => after.container = host.container ∧
      (pairs.length ≤ maxCount → Undone perform host (command.asks host.container) fault after)
  | _ => Undone perform host (command.asks host.container) fault after

/-- A failed command did nothing. What is collected in another multimap leaves nothing
of that one, if the pairs can be counted. -/
def FlatMultiMap.Command.Fails [BEq ν] (command : Command κ ν) (host : Host (FlatMultiMap κ ν)) (fault : Fault)
    (after : Host (FlatMultiMap κ ν)) : Prop :=
  match command with
  | .renewFrom pairs => after.container = host.container ∧
      (pairs.length ≤ maxCount → Undone perform host (command.asks host.container) fault after)
  | _ => Undone perform host (command.asks host.container) fault after

theorem FlatMap.perform_fails [BEq κ] (host : Host (FlatMap κ ν)) (command : Command κ ν) :
    Leads command.perform host (fun _ _ => True) (command.Fails host) := by
  have undone : (∀ pairs, command = .renewFrom pairs → pairs.length ≤ maxCount) → Leads command.perform host
      (fun _ _ => True) (Undone Command.perform host (command.asks host.container)) :=
    fun counted => (perform_spares command counted).undone managed_perform
  cases command with
  | renewFrom pairs =>
    refine Vector.renew_provided fun counted => undone ?_
    rintro _ ⟨⟩
    exact counted
  | _ => exact undone nofun

theorem FlatMultiMap.perform_fails [BEq ν] (host : Host (FlatMultiMap κ ν)) (command : Command κ ν) :
    Leads command.perform host (fun _ _ => True) (command.Fails host) := by
  have undone : (∀ pairs, command = .renewFrom pairs → pairs.length ≤ maxCount) → Leads command.perform host
      (fun _ _ => True) (Undone Command.perform host (command.asks host.container)) :=
    fun counted => (perform_spares command counted).undone managed_perform
  cases command with
  | renewFrom pairs =>
    refine Vector.renew_provided fun counted => undone ?_
    rintro _ ⟨⟩
    exact counted
  | _ => exact undone nofun

end Flat

section Trees
variable {α κ : Type} [Keyed α κ] [Ord κ] [Shown κ] [Shown α] [Stored α]

/-- A failed command did nothing. What is made of another tree is dropped. -/
def Tree.Command.Fails (command : Command α κ) (host : Host (Tree α)) (fault : Fault) (after : Host (Tree α)) : Prop :=
  match command with
  | .renewOver _ _ => after.container = host.container
  | .renewFrom _ => after.container = host.container
  | _ => Undone perform host (command.asks host.container) fault after

theorem Tree.perform_fails [Std.TransOrd κ] {host : Host (Tree α)} {values : List α}
    (represents : host.container.Represents values) (command : Command α κ) :
    Leads command.perform host (fun _ _ => True) (command.Fails host) := by
  cases command with
  | renewOver slots nodes =>
    apply (leads_bind _ _).mpr
    exact (renewOver_leads (occupy slots nodes) host).mono (fun _ _ _ => trivial) fun _ _ kept => kept
  | renewFrom given =>
    apply (leads_bind _ _).mpr
    exact (renewFrom_leads given host).mono (fun _ _ _ => trivial) fun _ _ kept => kept
  | _ => exact Spares.undone managed_perform (perform_spares represents _ nofun nofun)

end Trees

section Maps
variable {κ ν : Type} [Ord κ] [Shown κ] [Shown ν] [Stored κ] [Stored ν]

/-- A failed command did nothing. What is made of another map is dropped. -/
def Map.Command.Fails (command : Command κ ν) (host : Host (Map κ ν)) (fault : Fault) (after : Host (Map κ ν)) : Prop :=
  match command with
  | .renewFrom _ => after.container = host.container
  | _ => Undone perform host (command.asks host.container) fault after

theorem Map.perform_fails [Std.TransOrd κ] {host : Host (Map κ ν)} {entries : List (κ × ν)}
    (represents : Tree.Represents host.container entries) (command : Command κ ν) :
    Leads command.perform host (fun _ _ => True) (command.Fails host) := by
  cases command with
  | renewFrom pairs =>
    apply (leads_bind _ _).mpr
    exact (renewFrom_leads pairs host).mono (fun _ _ _ => trivial) fun _ _ collected => collected.1
  | _ => exact Spares.undone managed_perform (perform_spares represents _ nofun)

end Maps

section Runs
variable {α β κ ν : Type} [Stored α] [BEq α] [Inhabited α] [Shown α] [Stored β] [Keyed β κ] [Shown β] [Ord κ]
  [Std.TransOrd κ] [BEq κ] [Shown κ] [Stored κ] [Shown ν] [Stored ν] [BEq ν]

/-- Whatever was done before to a container of any kind, on any storage and whatever the
allocators refuse, a command that fails leaves the state as it was. -/
theorem failures_leave_no_trace (engine : Engine) (pool : Pool) :
    Session.FailsAs Storage.Command.perform Storage.Command.Fails (⟨⟨engine, #[]⟩, pool⟩ : Host (Storage α)) ∧
    Session.FailsAs Vector.Command.perform Vector.Command.Fails (⟨⟨engine, #[]⟩, pool⟩ : Host (Vector α)) ∧
    Session.FailsAs FlatMap.Command.perform FlatMap.Command.Fails (⟨⟨engine, #[]⟩, pool⟩ : Host (FlatMap κ ν)) ∧
    Session.FailsAs FlatMultiMap.Command.perform FlatMultiMap.Command.Fails
      (⟨⟨engine, #[]⟩, pool⟩ : Host (FlatMultiMap κ ν)) ∧
    Session.FailsAs Tree.Command.perform Tree.Command.Fails (⟨{ nodes := ⟨engine, #[]⟩ }, pool⟩ : Host (Tree β)) ∧
    Session.FailsAs Map.Command.perform Map.Command.Fails (⟨{ nodes := ⟨engine, #[]⟩ }, pool⟩ : Host (Map κ ν)) := by
  have fresh : ∀ {τ : Type} [Keyed τ κ], ∃ values : List τ, Tree.Represents { nodes := ⟨engine, #[]⟩ } values :=
    ⟨[], Tree.represents_nil engine⟩
  refine ⟨?_, ?_, ?_, ?_, ?_, ?_⟩
  · apply Session.failsAs_of_leads Storage.managed_perform (fun _ => True) trivial (fun _ _ _ => trivial)
    intro command host _
    exact (Storage.perform_spares command).undone Storage.managed_perform
  · refine Session.failsAs_of_leads Vector.managed_perform (fun host => ∃ items, Vector.Holds host.container items)
      ⟨[], Vector.holds_empty engine⟩ ?_ ?_
    · rintro command host ⟨items, holds⟩
      exact ⟨_, (Vector.perform_agrees holds command).holds holds⟩
    · rintro command host ⟨items, holds⟩
      exact Vector.perform_fails holds command
  · exact Session.failsAs_of_leads FlatMap.managed_perform (fun _ => True) trivial (fun _ _ _ => trivial)
      fun command host _ => FlatMap.perform_fails host command
  · exact Session.failsAs_of_leads FlatMultiMap.managed_perform (fun _ => True) trivial (fun _ _ _ => trivial)
      fun command host _ => FlatMultiMap.perform_fails host command
  · refine Session.failsAs_of_leads Tree.managed_perform (fun host => ∃ values, Tree.Represents host.container values)
      fresh ?_ ?_
    · rintro command host ⟨values, represents⟩
      exact ⟨_, (Tree.perform_agrees represents command).2⟩
    · rintro command host ⟨values, represents⟩
      exact Tree.perform_fails represents command
  · refine Session.failsAs_of_leads Map.managed_perform (fun host => ∃ entries, Tree.Represents host.container entries)
      fresh ?_ ?_
    · rintro command host ⟨entries, represents⟩
      exact ⟨_, (Map.perform_agrees represents command).2⟩
    · rintro command host ⟨entries, represents⟩
      exact Map.perform_fails represents command

end Runs

/-- Keys that differ in the case of a letter only are equal in the order. -/
theorem failures_leave_no_trace_caseless : Std.TransOrd Caseless ∧
    Pool.Forgetful ⟨⟨.endsWithin 4096, 0, []⟩, ⟨.liveWithin 1024, 0, []⟩⟩ ∧
    Session.FailsAs Map.Command.perform Map.Command.Fails (⟨{ nodes := ⟨.heap .a 0 0, #[]⟩ },
      ⟨⟨.endsWithin 4096, 0, []⟩, ⟨.liveWithin 1024, 0, []⟩⟩⟩ : Host (Map Caseless Int64)) := by
  refine ⟨inferInstance, ?_, (failures_leave_no_trace (α := Int64) (β := Member Caseless) (.heap .a 0 0) _).2.2.2.2.2⟩
  rintro (_ | _)
  · exact Rule.forgetful_endsWithin 4096
  · exact Rule.forgetful_liveWithin 1024

end Containers
