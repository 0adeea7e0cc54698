import Containers.Proofs.Sparing
import Mathlib.Algebra.Group.Nat.Defs
import Mathlib.Order.Bounds.Defs
import Mathlib.Order.Defs.Unbundled
import Mathlib.Order.Monotone.Basic

/-! Growth by doubling. Where elements are added one at a time, a buffer is left only
when it is full, and for one of twice the capacity. So the greatest length that was
ever reached decides how many buffers were granted, and what a run asks of its
allocator is one chain of requests, on which it never goes back. -/
namespace Containers

namespace Vector

/-- The capacity of the buffers one after the other, if each is twice as large as the
one before; before the first there is none. -/
def reach : Nat → Nat
  | 0 => 0
  | grown + 1 => 16 * 2 ^ grown

theorem doubled_reach (buffers : Nat) : doubled (reach buffers) = reach (buffers + 1) := by
  cases buffers with
  | zero => rfl
  | succ grown =>
    have positive : 0 < 2 ^ grown := Nat.two_pow_pos grown
    rw [doubled, if_neg (by simp only [reach]; omega)]
    simp only [reach, Nat.pow_succ]
    omega

example : (List.range 5).map reach = [0, 16, 32, 64, 128] := rfl

theorem reach_strictMono : StrictMono reach := by
  apply strictMono_nat_of_lt_succ
  intro buffers
  rw [← doubled_reach, doubled]
  split
  · rename_i empty
    rw [empty]
    decide
  · omega

/-- The buffer that comes next is the least one for one element more than the present
one holds. -/
theorem reach_succ_isLeast (buffers : Nat) : IsLeast {count | reach buffers + 1 ≤ reach count} (buffers + 1) :=
  ⟨reach_strictMono (Nat.lt_succ_self buffers), fun _ more => reach_strictMono.lt_iff_lt.mp more⟩

end Vector

/-- The history went on from `start` by so many grants, each of the next buffer of the
chain; every refusal was of the next one as well, and every free of the one before the
latest. -/
inductive History.Doubles (element : Layout) (start : History) : Nat → History → Prop where
  | start : Doubles element start 0 start
  | granted {buffers : Nat} {later : History} {block : Block}
      (next : block.layout = element.array (Vector.reach (buffers + 1)))
      (before : Doubles element start buffers later) : Doubles element start (buffers + 1) (.granted block :: later)
  | refused {buffers : Nat} {later : History} {layout : Layout}
      (next : layout = element.array (Vector.reach (buffers + 1)))
      (before : Doubles element start buffers later) : Doubles element start buffers (.refused layout :: later)
  | freed {buffers : Nat} {later : History} {block : Block}
      (superseded : block.layout = element.array (Vector.reach buffers))
      (before : Doubles element start (buffers + 1) later) :
      Doubles element start (buffers + 1) (.freed block :: later)

/-- What was granted in between is the chain itself, the largest buffer last. -/
theorem History.Doubles.layouts {element : Layout} {start later : History} {buffers : Nat}
    (doubles : start.Doubles element buffers later) :
    later.grants.map Block.layout =
      ((List.range buffers).map fun grown => element.array (Vector.reach (grown + 1))).reverse ++
        start.grants.map Block.layout := by
  induction doubles with
  | start => rfl
  | granted next _ ih =>
    rw [List.range_succ, List.map_append, List.reverse_append, List.append_assoc, ← ih]
    exact congrArg (· :: _) next
  | refused _ _ ih => exact ih
  | freed _ _ ih => exact ih

section Strides
variable {σ β : Type}

/-- The storage in which a container keeps its elements, beside the allocators. -/
def Host.stored (store : σ → Storage β) (host : Host σ) : Host (Storage β) :=
  ⟨store host.container, host.pool⟩

/-- Nothing is asked of the allocators, and no element is added. -/
structure Idle (before after : Host (Storage β)) : Prop where
  engine : after.container.engine = before.container.engine
  pool : after.pool = before.pool
  size : after.container.size ≤ before.container.size

instance : Std.Refl (@Idle β) where
  refl _ := ⟨rfl, rfl, Nat.le_refl _⟩

instance : IsTrans (Host (Storage β)) Idle where
  trans _ _ _ first second :=
    ⟨second.engine.trans first.engine, second.pool.trans first.pool, second.size.trans first.size⟩

variable [Stored β]

/-- A storage that draws on one allocator and never held more elements than `peak`. Its
capacity is the least one of the chain for so many elements, that allocator granted the
buffers up to this one, and the other one was asked for nothing. -/
structure Doubled (id : AllocatorId) (start : Pool) (peak : Nat) (host : Host (Storage β)) : Prop where
  within : host.container.size ≤ peak
  chain : ∃ buffers address, IsLeast {count | peak ≤ Vector.reach count} buffers ∧
    host.container.engine = .heap id (Vector.reach buffers) address ∧
    (start.get id).history.Doubles (Stored.layout β) buffers (host.pool.get id).history
  other : ∀ other ≠ id, (host.pool.get other).history = (start.get other).history

theorem doubled_start (id : AllocatorId) (start : Pool) :
    Doubled id start 0 (⟨⟨.heap id 0 0, #[]⟩, start⟩ : Host (Storage β)) where
  within := Nat.le_refl 0
  chain := ⟨0, 0, ⟨Nat.zero_le _, fun _ _ => Nat.zero_le _⟩, rfl, .start⟩
  other _ _ := rfl

/-- What happens to a storage where one element is added at most. -/
inductive Stride (before : Host (Storage β)) : Host (Storage β) → Prop where
  | idle {after : Host (Storage β)} (idle : Idle before after) : Stride before after
  | added {after : Host (Storage β)} (room : before.container.size ≠ before.container.capacity)
      (engine : after.container.engine = before.container.engine) (pool : after.pool = before.pool)
      (size : after.container.size = before.container.size + 1) : Stride before after
  | grown {after : Host (Storage β)} {id : AllocatorId} {capacity address moved : Nat}
      (full : before.container.size = before.container.capacity)
      (old : before.container.engine = .heap id capacity address)
      (new : after.container.engine = .heap id (Vector.doubled capacity) moved)
      (moves : Storage.Moved before after) (size : after.container.size = before.container.size + 1) :
      Stride before after
  | refused {after : Host (Storage β)} {id : AllocatorId} {capacity address : Nat}
      (full : before.container.size = before.container.capacity)
      (old : before.container.engine = .heap id capacity address)
      (engine : after.container.engine = before.container.engine)
      (size : after.container.size = before.container.size)
      (pool : after.pool = before.pool.noting id ((Stored.layout β).array (Vector.doubled capacity))) :
      Stride before after

variable {id : AllocatorId} {start : Pool} {peak : Nat} {before after : Host (Storage β)}

/-- The allocators are asked only by a storage that is full. -/
theorem Stride.full (stride : Stride before after) (asked : after.pool ≠ before.pool) :
    before.container.size = before.container.capacity := by
  cases stride with
  | idle idle => exact absurd idle.pool asked
  | added _ _ pool _ => exact absurd pool asked
  | grown full _ _ _ _ => exact full
  | refused full _ _ _ _ => exact full

theorem Doubled.capacity_ge (doubled : Doubled id start peak before) : peak ≤ before.container.capacity := by
  obtain ⟨buffers, address, least, heap, -⟩ := doubled.chain
  rw [Storage.capacity, heap]
  exact least.1

/-- The buffers that were granted are those of the chain up to the present one. -/
theorem Doubled.granted (doubled : Doubled id start peak before) :
    ∃ buffers, before.container.capacity = Vector.reach buffers ∧
      (before.pool.get id).history.grants.map Block.layout =
        ((List.range buffers).map fun grown => (Stored.layout β).array (Vector.reach (grown + 1))).reverse ++
          (start.get id).history.grants.map Block.layout := by
  obtain ⟨buffers, address, -, heap, doubles⟩ := doubled.chain
  exact ⟨buffers, by rw [Storage.capacity, heap, Engine.capacity], doubles.layouts⟩

/-- A storage is full only when its length is at its peak, and then so is its capacity. -/
theorem Doubled.full (doubled : Doubled id start peak before)
    (full : before.container.size = before.container.capacity) :
    before.container.size = peak ∧ before.container.capacity = peak := by
  have enough := doubled.capacity_ge
  have within := doubled.within
  omega

/-- The buffer of the chain that an allocator granted; before the first there is none. -/
theorem owned_reach (sized : elementSize β ≠ 0) (buffers address : Nat) :
    (Engine.heap id (Vector.reach (buffers + 1)) address).owned β id =
      some ⟨address, (Stored.layout β).array (Vector.reach (buffers + 1))⟩ := by
  have positive : Vector.reach (buffers + 1) ≠ 0 :=
    Nat.ne_zero_of_lt (Vector.reach_strictMono (Nat.lt_succ_self buffers))
  rw [Engine.owned, if_pos ⟨rfl, Nat.mul_ne_zero positive sized⟩]

theorem owned_other {own other : AllocatorId} (apart : other ≠ own) (capacity address : Nat) :
    (Engine.heap own capacity address).owned β other = none := by
  rw [Engine.owned, if_neg fun both => apart both.1.symm]

/-- Moving to the next buffer of the chain grants it and frees the one before. -/
theorem History.Doubles.moved {history earlier : History} {buffers : Nat} (sized : elementSize β ≠ 0)
    (doubles : earlier.Doubles (Stored.layout β) buffers history) (address moved : Nat) :
    earlier.Doubles (Stored.layout β) (buffers + 1)
      ((history.grant? ((Engine.heap id (Vector.reach (buffers + 1)) moved).owned β id)).free?
        ((Engine.heap id (Vector.reach buffers) address).owned β id)) := by
  rw [owned_reach sized]
  have granted : earlier.Doubles (Stored.layout β) (buffers + 1)
      (.granted ⟨moved, (Stored.layout β).array (Vector.reach (buffers + 1))⟩ :: history) := .granted rfl doubles
  cases buffers with
  | zero =>
    rw [Engine.owned, if_neg fun both => both.2 (Nat.zero_mul _)]
    exact granted
  | succ buffers =>
    rw [owned_reach sized]
    exact .freed rfl granted

/-- Every stride keeps to the chain. -/
theorem Stride.doubled (stride : Stride before after) (sized : elementSize β ≠ 0)
    (doubled : Doubled id start peak before) : Doubled id start (max peak after.container.size) after := by
  have within := doubled.within
  have enough := doubled.capacity_ge
  obtain ⟨buffers, address, least, heap, history⟩ := doubled.chain
  have capacity : before.container.capacity = Vector.reach buffers := by rw [Storage.capacity, heap, Engine.capacity]
  cases stride with
  | idle idle =>
    rw [Nat.max_eq_left (idle.size.trans within)]
    exact ⟨idle.size.trans within, ⟨buffers, address, least, idle.engine.trans heap, idle.pool ▸ history⟩,
      idle.pool ▸ doubled.other⟩
  | added room engine pool size =>
    refine ⟨Nat.le_max_right .., ⟨buffers, address, ⟨?_, ?_⟩, engine.trans heap, pool ▸ history⟩, pool ▸ doubled.other⟩
    · change max peak after.container.size ≤ Vector.reach buffers
      omega
    · exact fun count more => least.2 ((Nat.le_max_left ..).trans more)
  | @grown own _ _ moved full old new moves size =>
    obtain ⟨rfl, rfl, rfl⟩ := Engine.heap.inj (heap.symm.trans old)
    obtain ⟨atPeak, capacityAtPeak⟩ := doubled.full full
    rw [Vector.doubled_reach] at new
    have engines : ∀ other, (after.pool.get other).history =
        ((before.pool.get other).history.grant?
          ((Engine.heap id (Vector.reach (buffers + 1)) moved).owned β other)).free?
          ((Engine.heap id (Vector.reach buffers) address).owned β other) := fun other => by
      rw [← new, ← heap]
      exact moves other
    -- a full storage is at its peak, so the new peak is the first one that needs the next buffer
    have peak' : max peak after.container.size = Vector.reach buffers + 1 := by omega
    refine ⟨Nat.le_max_right .., ⟨buffers + 1, moved, peak' ▸ Vector.reach_succ_isLeast buffers, new, ?_⟩, ?_⟩
    · rw [engines]
      exact history.moved sized address moved
    · intro other apart
      rw [engines, owned_other apart, owned_other apart]
      exact doubled.other other apart
  | @refused own _ _ full old engine size pool =>
    obtain ⟨rfl, rfl, rfl⟩ := Engine.heap.inj (heap.symm.trans old)
    rw [size, Nat.max_eq_left within]
    refine ⟨size ▸ within, ⟨buffers, address, least, engine.trans heap, ?_⟩, ?_⟩
    · rw [pool, Pool.noting, Pool.history_set, if_pos rfl]
      exact .refused (by rw [Vector.doubled_reach]) history
    · intro other apart
      rw [pool, Pool.noting, Pool.history_set, if_neg apart]
      exact doubled.other other apart

end Strides

section Runs
variable {σ κ ρ β : Type} [Stored β] {store : σ → Storage β} {before after : Host σ}

/-- The storage of a container took one stride, and the allocators were asked only if it
was to add an element. -/
structure Strode (store : σ → Storage β) (adds : Prop) (before after : Host σ) : Prop where
  stride : Stride (before.stored store) (after.stored store)
  asks : after.pool ≠ before.pool → adds

/-- What adds no element asks for nothing. -/
theorem Strode.of_cases {adds : Prop} (strides : adds → Stride (before.stored store) (after.stored store))
    (idles : ¬ adds → Idle (before.stored store) (after.stored store)) : Strode store adds before after := by
  by_cases allowed : adds
  · exact ⟨strides allowed, fun _ => allowed⟩
  · exact ⟨.idle (idles allowed), fun asked => absurd (idles allowed).pool asked⟩

/-- A command keeps to the chain, of which all buffers up to the present one were granted, the
latest first. It asks for a buffer only if it is to add an element to as many as there have
ever been, in a storage that is full with them. -/
structure Growing (store : σ → Storage β) (adds : κ → σ → Prop) (id : AllocatorId) (start : Pool) (peak : Nat)
    (command : κ) (before : Host σ) (step : Step σ ρ) : Prop where
  doubled : Doubled id start (max peak (store step.after.container).size) (step.after.stored store)
  granted : ∃ buffers, (store step.after.container).capacity = Vector.reach buffers ∧
    (step.after.pool.get id).history.grants.map Block.layout =
      ((List.range buffers).map fun grown => (Stored.layout β).array (Vector.reach (grown + 1))).reverse ++
        (start.get id).history.grants.map Block.layout
  asks : step.after.pool ≠ before.pool → adds command before.container ∧
    (store before.container).size = peak ∧ (store before.container).capacity = peak

/-- Along every run of such commands from an empty container on the heap the capacity and
the requests follow from the greatest length so far. -/
def GrowsByDoubling (perform : κ → Op σ ρ) (gradual : κ → Prop) (adds : κ → σ → Prop) (store : σ → Storage β)
    (empty : AllocatorId → σ) : Prop :=
  ∀ (id : AllocatorId) (start : Pool) (commands : List κ), (∀ command ∈ commands, gradual command) →
    Session.Follows perform (fun peak _ step => max peak (store step.after.container).size)
      (Growing store adds id start) commands ⟨empty id, start⟩ 0

/-- Strides of every command make runs that grow by doubling. -/
theorem growsByDoubling_of_strides {perform : κ → Op σ ρ} {gradual : κ → Prop} {adds : κ → σ → Prop}
    {empty : AllocatorId → σ} (ordered : σ → Prop) (sized : elementSize β ≠ 0)
    (begins : ∀ id, ordered (empty id) ∧ store (empty id) = ⟨.heap id 0 0, #[]⟩)
    (strides : ∀ command, gradual command → ∀ host, ordered host.container →
      let step := (perform command).step host
      ordered step.after.container ∧ Strode store (adds command host.container) host step.after) :
    GrowsByDoubling perform gradual adds store empty := by
  intro id start commands each
  have keeps : ∀ command, gradual command → ∀ host peak,
      ordered host.container ∧ Doubled id start peak (host.stored store) →
      let step := (perform command).step host
      Growing store adds id start peak command host step ∧ ordered step.after.container ∧
        Doubled id start (max peak (store step.after.container).size) (step.after.stored store) := by
    rintro command allowed host peak ⟨orderly, doubled⟩
    obtain ⟨orderly', stride, asks⟩ := strides command allowed host orderly
    have doubled' := stride.doubled sized doubled
    exact ⟨⟨doubled', doubled'.granted, fun asked => ⟨asks asked, doubled.full (stride.full asked)⟩⟩, orderly',
      doubled'⟩
  obtain ⟨orderly, isEmpty⟩ := begins id
  refine Session.follows_of_step_of
    (fun host peak => ordered host.container ∧ Doubled id start peak (host.stored store)) keeps commands each
    ⟨orderly, ?_⟩
  rw [Host.stored, isEmpty]
  exact doubled_start id start

end Runs

section Obedience
variable {σ β γ : Type} {like : Host σ → Host σ → Prop} {op : Op σ β}

/-- However the operation ends, what it leaves stands in this relation to what it found. -/
def Obeys (like : Host σ → Host σ → Prop) (op : Op σ β) : Prop :=
  ∀ host, Leads op host (fun _ after => like host after) fun _ after => like host after

theorem Obeys.step (obeys : Obeys like op) (host : Host σ) : like host (op.step host).after :=
  (leads_iff_step op fun _ after => like host after).mp (obeys host)

theorem obeys_map (f : β → γ) (obeys : Obeys like op) : Obeys like (f <$> op) :=
  fun host => (leads_map f op).mpr (obeys host)

/-- An answer that is passed on. -/
theorem obeys_reply {next : β → Op σ γ} (answers : ∀ answer, ∃ reply, next answer = pure reply)
    (obeys : Obeys like op) : Obeys like (op >>= next) := by
  intro host
  refine (leads_bind op next).mpr ((obeys host).mono (fun answer after related => ?_) fun _ _ related => related)
  obtain ⟨reply, isReply⟩ := answers answer
  rwa [isReply]

theorem obeys_orAbort (obeys : Obeys like op) : Obeys like (Op.orAbort op) :=
  fun host => (leads_orAbort op).mpr (obeys host)

theorem obeys_reading {next : σ → Op σ β} (rest : ∀ container, Obeys like (next container)) :
    Obeys like (Op.current >>= next) :=
  fun host => current_then (rest host.container host)

theorem obeys_bind [IsTrans (Host σ) like] {next : β → Op σ γ} (first : Obeys like op)
    (rest : ∀ answer, Obeys like (next answer)) : Obeys like (op >>= next) := by
  intro host
  refine (leads_bind _ _).mpr ((first host).mono (fun answer middle related => ?_) fun _ _ related => related)
  have further : ∀ after, like middle after → like host after := fun after => IsTrans.trans host middle after related
  exact (rest answer middle).mono (fun _ => further) fun _ => further

variable [Std.Refl like]

theorem obeys_pure (answer : β) : Obeys like (pure answer : Op σ β) :=
  fun host => Std.Refl.refl host

theorem obeys_throw (fault : Fault) : Obeys like (throw fault : Op σ β) :=
  fun host => Std.Refl.refl host

theorem obeys_fail (cause : Panic) : Obeys like (Op.fail cause : Op σ β) :=
  obeys_throw (.panicked cause)

theorem obeys_look (read : σ → Except Fault β) : Obeys like (Op.look read) :=
  fun host => look_leads (fun _ => Std.Refl.refl host) fun _ => Std.Refl.refl host

theorem obeys_require (condition : Prop) [Decidable condition] (cause : Panic) :
    Obeys like (Op.require condition cause : Op σ Unit) := by
  unfold Op.require
  split
  · exact obeys_pure ()
  · exact obeys_fail cause

end Obedience

end Containers
