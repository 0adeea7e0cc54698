import Containers.Proofs.Doubling
import Containers.Proofs.FlatMapRuns
import Containers.Proofs.PacingVectors

/-! Vectors and sorted maps that grow by doubling. An operation that adds no element asks
for nothing, and one that adds an element asks for a buffer only where the vector is full.
A sorted map looks a key up first, so that nothing is asked for a key that is present. -/
namespace Containers

namespace Vector
variable {α : Type}

/-! Operations that add no element. -/

theorem idles_rewrite {change : Array α → Array α} (shrinks : ∀ items, (change items).size ≤ items.size) :
    Obeys Idle (Storage.rewrite change) :=
  fun host => ⟨rfl, rfl, shrinks host.container.items⟩

theorem idles_erased (start stop : Nat) :
    Obeys Idle (Storage.rewrite fun items : Array α => Slots.erase items start stop) := by
  refine idles_rewrite fun items => ?_
  rw [Slots.erase, Array.size_extract, Slots.size_moveDown]
  omega

theorem idles_remove (position : Nat) : Obeys Idle (remove position : Op (Vector α) α) := by
  refine obeys_reading fun v => ?_
  split
  · exact obeys_fail _
  · exact obeys_bind (idles_erased _ _) fun _ => obeys_pure _

theorem idles_erase (position : Nat) : Obeys Idle (erase position : Op (Vector α) Nat) :=
  obeys_bind (idles_remove position) fun _ => obeys_pure _

theorem idles_eraseRange (start stop : Nat) : Obeys Idle (eraseRange start stop : Op (Vector α) Nat) := by
  refine obeys_reading fun v => ?_
  split
  · exact obeys_pure _
  · exact obeys_bind (obeys_require _ _) fun _ => obeys_bind (idles_erased _ _) fun _ => obeys_pure _

theorem idles_swapErase (position : Nat) : Obeys Idle (swapErase position : Op (Vector α) α) := by
  refine obeys_reading fun v => ?_
  split
  · exact obeys_fail _
  · refine obeys_bind (idles_rewrite fun items => ?_) fun _ => obeys_pure _
    rw [Slots.size_swapErase]
    exact Nat.sub_le _ _

theorem idles_pop : Obeys Idle (pop : Op (Vector α) (Option α)) :=
  obeys_reading fun _ => obeys_bind (idles_rewrite fun _ => by simp) fun _ => obeys_pure _

theorem idles_truncate (size : Nat) : Obeys Idle (truncate size : Op (Vector α) Unit) :=
  idles_rewrite fun items => by
    rw [Array.size_extract]
    omega

theorem idles_get (position : Nat) : Obeys Idle (get position : Op (Vector α) α) := by
  refine obeys_reading fun v => ?_
  split
  · exact obeys_pure _
  · exact obeys_fail _

theorem idles_set (position : Nat) (x : α) : Obeys Idle (set position x) :=
  obeys_reading fun _ => obeys_bind (obeys_require _ _) fun _ => idles_rewrite fun _ => by simp

theorem idles_item (position : Nat) : Obeys Idle (item position : Op (Vector α) α) := by
  refine obeys_reading fun v => ?_
  split
  · exact obeys_pure _
  · exact obeys_throw _

theorem idles_setItem (position : Nat) (x : α) : Obeys Idle (setItem position x) := by
  refine obeys_reading fun v => ?_
  split
  · exact idles_rewrite fun _ => by simp
  · exact obeys_throw _

/-- What is done to one end of a vector is done if it is not empty. -/
theorem idles_end {β : Type} (cause : Panic) {next : Vector α → Op (Vector α) β} (rest : ∀ v, Obeys Idle (next v)) :
    Obeys Idle (do
      let v ← Op.current
      Op.require (v.size ≠ 0) cause
      next v) :=
  obeys_reading fun v => obeys_bind (obeys_require _ _) fun _ => rest v

theorem idles_findFrom [BEq α] (x : α) (start : Nat) : Obeys Idle (findFrom x start) :=
  obeys_reading fun _ => obeys_bind (obeys_require _ _) fun _ => obeys_pure _

/-! Operations that add an element. -/

section Growth
variable [Stored α] {host before middle after : Host (Vector α)}

/-- If no buffer is obtained, an allocator noted that it refused one, or nothing happened. -/
theorem acquire_notes {σ : Type} (host : Host σ) (own : AllocatorId) (count : Nat) :
    Leads (Storage.acquire α own count) host (fun _ _ => True) fun _ after =>
      after = host ∨ after = ⟨host.container, host.pool.noting own ((Stored.layout α).array count)⟩ := by
  unfold Storage.acquire
  rw [leads_bind, leads_require]
  split
  · split
    · trivial
    · rw [leads_bind, leads_request]
      cases rule : (host.pool.get own).admits ((Stored.layout α).array count) with
      | true =>
        simp only [Pool.allocate, Allocator.allocate, rule, ↓reduceIte]
        trivial
      | false =>
        simp only [Pool.allocate, Allocator.allocate, rule, Bool.false_eq_true, ↓reduceIte]
        exact .inr rfl
  · exact .inl rfl

/-- A vector was not full, or it was moved to a buffer of twice the capacity. -/
inductive Opened (before : Host (Vector α)) : Host (Vector α) → Prop where
  | room (room : before.container.size ≠ before.container.capacity) : Opened before before
  | moved {after : Host (Vector α)} {id : AllocatorId} {capacity address new : Nat}
      (full : before.container.size = before.container.capacity)
      (old : before.container.engine = .heap id capacity address)
      (engine : after.container.engine = .heap id (doubled capacity) new)
      (items : after.container.items = before.container.items) (moves : Storage.Moved before after) :
      Opened before after

/-- One element more in the vector that was opened. -/
theorem Opened.stride (opened : Opened before middle) (engine : after.container.engine = middle.container.engine)
    (pool : after.pool = middle.pool) (size : after.container.size = before.container.size + 1) :
    Stride before after := by
  cases opened with
  | room room => exact .added room engine pool size
  | moved full old new items moves =>
    refine .grown full old (engine.trans new) (fun other => ?_) size
    have owned : Holding.owned after.container other = Holding.owned middle.container other :=
      congrArg (Engine.owned α · other) engine
    rw [pool, owned]
    exact moves other

theorem Opened.items_eq (opened : Opened before after) : after.container.items = before.container.items := by
  cases opened with
  | room _ => rfl
  | moved _ _ _ items _ => exact items

/-- A storage on the heap draws on the same allocator after it moved, and what is noted is
noted by that one. -/
theorem reallocate_notes {own : AllocatorId} {capacity address : Nat}
    (heap : host.container.engine = .heap own capacity address) (count : Nat) :
    Leads (Storage.reallocate count) host (fun _ after => ∃ new, after.container.engine = .heap own count new)
      fun _ after => after = host ∨ after = ⟨host.container, host.pool.noting own ((Stored.layout α).array count)⟩ := by
  unfold Storage.reallocate
  apply current_then
  rw [heap]
  refine (leads_bind _ _).mpr ((acquire_notes host own count).mono (fun new after _ => ?_) fun _ _ noted => noted)
  exact ⟨new, rfl⟩

/-- A full vector moves to twice the capacity, or it stays and a refusal is noted at most. -/
theorem reallocate_opens (full : host.container.size = host.container.capacity) :
    Leads (Storage.reallocate (doubled host.container.capacity)) host (fun _ after => Opened host after)
      fun _ after => Stride host after := by
  cases engine : host.container.engine with
  | inline capacity =>
    unfold Storage.reallocate
    apply current_then
    rw [engine]
    exact .idle (Std.Refl.refl host)
  | heap own capacity address =>
    have isCapacity : host.container.capacity = capacity := congrArg Engine.capacity engine
    have more : host.container.size ≤ doubled host.container.capacity := full ▸ Nat.le_of_lt (lt_doubled _)
    refine (((Storage.reallocate_leads host _).and (Storage.reallocate_moves host _)).and
      (reallocate_notes engine _)).mono ?_ ?_
    · rintro _ after ⟨⟨⟨items, -⟩, moves⟩, new, engine'⟩
      rw [Nat.min_eq_left more] at items
      exact .moved full engine (isCapacity ▸ engine') (items.trans Array.extract_size) moves
    · rintro _ after ⟨-, rfl | rfl⟩
      · exact .idle (Std.Refl.refl _)
      · exact .refused full engine rfl rfl (by rw [isCapacity])

theorem growIfFull_opens (host : Host (Vector α)) :
    Leads growIfFull host (fun _ after => Opened host after) fun _ after => Stride host after :=
  growIfFull_then (fun full _ => reallocate_opens full) (fun _ _ => .idle (Std.Refl.refl host)) .room

theorem tryPush_opens (host : Host (Vector α)) (x : α) :
    Leads (tryPush x) host
      (fun _ after => after.container.items = host.container.items.push x ∧ ∃ middle, Opened host middle ∧
        after.container.engine = middle.container.engine ∧ after.pool = middle.pool)
      fun _ after => Stride host after := by
  rw [tryPush, leads_bind]
  refine (growIfFull_opens host).mono (fun _ middle opened => ?_) fun _ _ stride => stride
  exact ⟨congrArg (·.push x) opened.items_eq, middle, opened, rfl, rfl⟩

theorem strides_tryPush (x : α) : Obeys Stride (tryPush x) := by
  intro host
  refine (tryPush_opens host x).mono ?_ fun _ _ stride => stride
  rintro _ after ⟨items, middle, opened, engine, pool⟩
  exact opened.stride engine pool (by rw [Storage.size, items, Array.size_push, Storage.size])

theorem strides_tryInsert (position : Nat) (x : α) : Obeys Stride (tryInsert position x) := by
  intro host
  unfold tryInsert
  apply current_then
  rw [leads_bind, leads_require]
  split
  · rename_i within
    have adds : (Slots.insert host.container.items position 1 x).size = host.container.size + 1 := by
      have before : position ≤ host.container.items.toList.length := within
      rw [Storage.size, ← Array.length_toList, Slots.toList_insert within, ← Array.length_toList]
      simp only [List.length_append, List.length_take, List.length_replicate, List.length_drop]
      omega
    rw [leads_bind]
    refine (growIfFull_opens host).mono (fun _ middle opened => ?_) fun _ _ stride => stride
    rw [← opened.items_eq] at adds
    exact opened.stride rfl rfl adds
  · exact .idle (Std.Refl.refl host)

end Growth

/-- The commands that add elements one at a time, that take some out, and that only read or
overwrite what is there. -/
def Command.Gradual : Command α → Prop
  | .push _ | .tryPush _ | .pushDefault | .pop | .insert _ _ | .tryInsert _ _ | .remove _ | .erase _ | .eraseRange _ _
  | .swapErase _ | .truncate _ | .clear | .get _ | .front | .back | .item _ | .set _ _ | .setFront _ | .setBack _
  | .setItem _ _ | .modifyEach _ | .isEmpty | .find _ | .findFrom _ _ | .compare _ | .text | .allocator => True
  | _ => False

/-- The commands that add an element. -/
def Command.Adds : Command α → Prop
  | .push _ | .tryPush _ | .pushDefault | .insert _ _ | .tryInsert _ _ => True
  | _ => False

variable [Stored α]

variable [BEq α] [Inhabited α] [Shown α] {command : Command α}

/-- Of these the ones that add nothing ask for nothing. -/
theorem perform_idles (gradual : command.Gradual) (others : ¬ command.Adds) : Obeys Idle command.perform := by
  have reads : ∀ read : Vector α → Reply α, Obeys Idle (do return read (← Op.current)) :=
    fun read => obeys_reading fun _ => obeys_pure _
  cases command with
  | push _ | tryPush _ | pushDefault | insert _ _ | tryInsert _ _ => exact absurd trivial others
  | pop => exact obeys_map _ idles_pop
  | remove position => exact obeys_map _ (idles_remove position)
  | erase position => exact obeys_map _ (idles_erase position)
  | eraseRange start stop => exact obeys_map _ (idles_eraseRange start stop)
  | swapErase position => exact obeys_map _ (idles_swapErase position)
  | truncate size => exact obeys_reply (fun _ => ⟨_, rfl⟩) (idles_truncate size)
  | clear => exact obeys_reply (fun _ => ⟨_, rfl⟩) (idles_truncate 0)
  | get position => exact obeys_map _ (idles_get position)
  | front => exact obeys_map _ (idles_end _ fun _ => idles_get 0)
  | back => exact obeys_map _ (idles_end _ fun _ => idles_get _)
  | item position => exact obeys_map _ (idles_item position)
  | set position x => exact obeys_reply (fun _ => ⟨_, rfl⟩) (idles_set position x)
  | setFront x => exact obeys_reply (fun _ => ⟨_, rfl⟩) (idles_end _ fun _ => idles_set 0 x)
  | setBack x => exact obeys_reply (fun _ => ⟨_, rfl⟩) (idles_end _ fun _ => idles_set _ x)
  | setItem position x => exact obeys_reply (fun _ => ⟨_, rfl⟩) (idles_setItem position x)
  | modifyEach change => exact obeys_reply (fun _ => ⟨_, rfl⟩) (idles_rewrite fun _ => by simp)
  | find x => exact obeys_map _ (obeys_reading fun _ => obeys_pure _)
  | findFrom x start => exact obeys_map _ (idles_findFrom x start)
  | isEmpty => exact reads fun v => .flag (v.size = 0)
  | compare items =>
    exact reads fun v => .comparison (sameItems v.items items.toArray) (sameItems items.toArray v.items)
      (sameItems v.items items.toArray)
  | text => exact reads fun v => .text (Vector.text v)
  | allocator => exact reads fun v => .allocator v.engine.allocator?
  | _ => exact gradual.elim

theorem perform_strides (adds : command.Adds) : Obeys Stride command.perform := by
  cases command with
  | push x => exact obeys_reply (fun _ => ⟨_, rfl⟩) (obeys_orAbort (strides_tryPush x))
  | tryPush x => exact obeys_reply (fun _ => ⟨_, rfl⟩) (strides_tryPush x)
  | pushDefault => exact obeys_reply (fun _ => ⟨_, rfl⟩) (obeys_orAbort (strides_tryPush default))
  | insert position x => exact obeys_map _ (obeys_orAbort (strides_tryInsert position x))
  | tryInsert position x => exact obeys_map _ (strides_tryInsert position x)
  | _ => exact adds.elim

/-- Vectors to which elements are added one at a time. -/
theorem growsByDoubling (sized : elementSize α ≠ 0) :
    GrowsByDoubling Command.perform Command.Gradual (fun command _ => command.Adds) (id : Vector α → Storage α)
      fun id => ⟨.heap id 0 0, #[]⟩ :=
  growsByDoubling_of_strides (fun _ => True) sized (fun _ => ⟨trivial, rfl⟩) fun _ gradual host _ =>
    ⟨trivial, .of_cases (fun adds => (perform_strides adds).step host) fun others =>
      (perform_idles gradual others).step host⟩

end Vector

section Flat
variable {κ ν : Type} [Ord κ] [Stored κ] [Stored ν]

namespace FlatMap

/-- The commands that add a pair, which they do if no pair has an equal key. -/
def Command.Adds (command : Command κ ν) (map : FlatMap κ ν) : Prop :=
  match command with
  | .insert k _ | .tryInsert k _ => ∀ pair ∈ map.items, compare pair.1 k ≠ .eq
  | _ => False

variable [BEq κ]

theorem strides_tryInsert (k : κ) (value : ν) : Obeys Stride (tryInsert k value) := by
  refine obeys_reading fun map => ?_
  dsimp only
  split
  · exact fun host => .idle (Std.Refl.refl host)
  · exact obeys_reply (fun _ => ⟨_, rfl⟩) (Vector.strides_tryInsert _ _)

variable {command : Command κ ν} {host : Host (FlatMap κ ν)}

theorem perform_strides (adds : command.Adds host.container) : Obeys Stride command.perform := by
  cases command with
  | insert k value => exact obeys_reply (fun _ => ⟨_, rfl⟩) (obeys_orAbort (strides_tryInsert k value))
  | tryInsert k value => exact obeys_reply (fun _ => ⟨_, rfl⟩) (strides_tryInsert k value)
  | _ => exact adds.elim

variable [Std.TransOrd κ] [Std.LawfulBEqOrd κ] {entries : List (κ × ν)}

/-- Nothing is asked for a key that is present, nor where no pair is to be added. -/
theorem perform_idles (holds : Vector.Holds host.container entries) (sorted : Sorted entries)
    (portable : command.Portable) (others : ¬ command.Adds host.container) :
    Idle host (command.perform.step host).after := by
  have stays : Reference.Idle entries command → Idle host (command.perform.step host).after := fun idle => by
    rw [perform_idle holds sorted idle]
    exact Std.Refl.refl host
  cases command with
  | insert k value | tryInsert k value =>
    simp only [Command.Adds, not_forall, not_not] at others
    obtain ⟨pair, stored, same⟩ := others
    rw [← Array.mem_toList_iff, holds.items_eq] at stored
    exact stays (List.find?_isSome.mpr ⟨pair, stored, decide_eq_true same⟩)
  | setValue k value =>
    refine Obeys.step (obeys_map _ (obeys_reading fun map => ?_)) host
    split
    · exact obeys_pure none
    · exact obeys_bind (Vector.idles_rewrite fun _ => by simp) fun _ => obeys_pure _
  | erase k =>
    refine Obeys.step (obeys_map _ (obeys_reading fun map => ?_)) host
    split
    · exact obeys_bind (Vector.idles_erase _) fun _ => obeys_pure 1
    · exact obeys_pure 0
  | eraseAt position => exact (obeys_map _ (Vector.idles_erase position)).step host
  | remove k =>
    refine Obeys.step (obeys_map _ (obeys_reading fun map => ?_)) host
    split
    · exact obeys_map _ (Vector.idles_remove _)
    · exact obeys_pure none
  | clear => exact (obeys_reply (fun _ => ⟨_, rfl⟩) (Vector.idles_truncate 0)).step host
  | renewFrom pairs => exact portable.elim
  | find _ | get _ | lowerBound _ | upperBound _ | isEmpty | iterate => exact stays trivial

/-- Sorted maps; of two pairs with equal keys only the first is added. -/
theorem growsByDoubling (sized : elementSize (κ × ν) ≠ 0) :
    GrowsByDoubling Command.perform Command.Portable Command.Adds (id : FlatMap κ ν → Storage (κ × ν))
      fun id => ⟨.heap id 0 0, #[]⟩ := by
  refine growsByDoubling_of_strides (fun map => ∃ entries, Vector.Holds map entries ∧ Sorted entries) sized
    (fun id => ⟨⟨[], Vector.holds_empty _, .nil⟩, rfl⟩) ?_
  rintro command portable host ⟨entries, holds, sorted⟩
  have agrees := perform_matches holds sorted command
  exact ⟨⟨_, agrees.holds, agrees.sorted⟩,
    .of_cases (fun adds => (perform_strides adds).step host) (perform_idles holds sorted portable)⟩

end FlatMap

namespace FlatMultiMap
variable [BEq ν] {command : Command κ ν}

/-- The commands that add a pair. -/
def Command.Adds : Command κ ν → Prop
  | .insert _ _ | .tryInsert _ _ => True
  | _ => False

theorem perform_strides (adds : command.Adds) : Obeys Stride command.perform := by
  cases command with
  | insert k value => exact obeys_map _ (obeys_orAbort (obeys_reading fun _ => Vector.strides_tryInsert _ _))
  | tryInsert k value => exact obeys_map _ (obeys_reading fun _ => Vector.strides_tryInsert _ _)
  | _ => exact adds.elim

theorem perform_idles (portable : command.Portable) (others : ¬ command.Adds) : Obeys Idle command.perform := by
  cases command with
  | insert _ _ | tryInsert _ _ => exact absurd trivial others
  | findValue value start stop =>
    refine obeys_map _ (obeys_reading fun map => ?_)
    split
    · exact obeys_pure _
    · exact obeys_throw _
  | erase k =>
    refine obeys_map _ (obeys_reading fun map => ?_)
    exact obeys_bind (Vector.idles_eraseRange _ _) fun _ => obeys_pure _
  | eraseAt position => exact obeys_map _ (Vector.idles_erase position)
  | clear => exact obeys_reply (fun _ => ⟨_, rfl⟩) (Vector.idles_truncate 0)
  | renewFrom pairs => exact portable.elim
  | find _ | count _ | equalRange _ | getAll _ | lowerBound _ | upperBound _ | isEmpty | iterate =>
    exact obeys_reading fun _ => obeys_pure _

/-- Sorted multimaps, which add every pair. -/
theorem growsByDoubling (sized : elementSize (κ × ν) ≠ 0) :
    GrowsByDoubling Command.perform Command.Portable (fun command _ => command.Adds)
      (id : FlatMultiMap κ ν → Storage (κ × ν)) fun id => ⟨.heap id 0 0, #[]⟩ :=
  growsByDoubling_of_strides (fun _ => True) sized (fun _ => ⟨trivial, rfl⟩) fun _ portable host _ =>
    ⟨trivial, .of_cases (fun adds => (perform_strides adds).step host) fun others =>
      (perform_idles portable others).step host⟩

end FlatMultiMap

end Flat

end Containers
