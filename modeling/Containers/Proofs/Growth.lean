import Containers.Proofs.Outcome
import Containers.Vector.Basic

/-! Growing a storage. A storage that moves to another buffer keeps the elements
that fit there; one that does not move, for whatever reason, stays as it was. -/
namespace Containers

namespace Storage
variable {α : Type} [Stored α] {host : Host (Storage α)} {id : AllocatorId} {count : Nat}

/-- Why a storage does not move to a buffer of `count` slots: its slots are not on
the heap, the buffer would be too large, or the allocator refuses it. A buffer of no
bytes is never refused. -/
inductive Denied (host : Host (Storage α)) (count : Nat) : Fault → Prop where
  | fixed {capacity : Nat} (inline : host.container.engine = .inline capacity) :
      Denied host count (.panicked (.fixedCapacity count capacity))
  | overflow {id : AllocatorId} {capacity address : Nat}
      (heap : host.container.engine = .heap id capacity address)
      (large : maxBytes < count * elementSize α) : Denied host count (.panicked .capacityOverflow)
  | refused {id : AllocatorId} {capacity address : Nat}
      (heap : host.container.engine = .heap id capacity address) (nonempty : count * elementSize α ≠ 0)
      (refuses : (host.pool.get id).admits ((Stored.layout α).array count) = false) :
      Denied host count (.refused ((Stored.layout α).array count))

/-- Only the engine and the allocators decide whether a storage moves. -/
theorem Denied.of_engine {other : Host (Storage α)} {fault : Fault} (denied : Denied host count fault)
    (engine : other.container.engine = host.container.engine) (pool : other.pool = host.pool) :
    Denied other count fault := by
  cases denied with
  | fixed inline => exact .fixed (engine.trans inline)
  | overflow heap large => exact .overflow (engine.trans heap) large
  | refused heap nonempty refuses => exact .refused (engine.trans heap) nonempty (pool ▸ refuses)

/-- A buffer is obtained, or it is too large or refused; the container is not
touched either way. -/
theorem acquire_leads {σ : Type} {host : Host σ} (id : AllocatorId) (count : Nat) :
    Leads (acquire α id count) host (fun _ after => after.container = host.container)
      (fun fault after => after.container = host.container ∧
        (fault = .panicked .capacityOverflow ∧ maxBytes < count * elementSize α ∨
          fault = .refused ((Stored.layout α).array count) ∧ count * elementSize α ≠ 0 ∧
            (host.pool.get id).admits ((Stored.layout α).array count) = false)) := by
  unfold acquire
  rw [leads_bind, leads_require]
  split
  · split
    · exact rfl
    · rename_i nonempty
      rw [leads_bind, leads_request]
      cases rule : (host.pool.get id).admits ((Stored.layout α).array count) with
      | true =>
        simp only [Pool.allocate, Allocator.allocate, rule, ↓reduceIte]
        exact rfl
      | false =>
        simp only [Pool.allocate, Allocator.allocate, rule, Bool.false_eq_true, ↓reduceIte]
        exact ⟨trivial, .inr ⟨trivial, nonempty, trivial⟩⟩
  · rename_i large
    exact ⟨rfl, .inl ⟨rfl, by omega⟩⟩

/-- A storage that moves keeps what fits, and one that does not stays as it was. -/
theorem reallocate_leads (host : Host (Storage α)) (count : Nat) :
    Leads (reallocate count) host
      (fun _ after => after.container.items = host.container.items.extract 0 (min host.container.size count) ∧
        after.container.capacity = count)
      (fun fault after => after.container = host.container ∧ Denied host count fault) := by
  unfold reallocate
  refine current_then ?_
  split
  · rename_i inline
    exact ⟨rfl, .fixed inline⟩
  · rename_i heap
    rw [leads_bind]
    refine (acquire_leads _ count).mono (fun address after kept => ⟨rfl, rfl⟩) ?_
    rintro fault after ⟨kept, ⟨rfl, large⟩ | ⟨rfl, nonempty, refuses⟩⟩
    · exact ⟨kept, .overflow heap large⟩
    · exact ⟨kept, .refused heap nonempty refuses⟩

/-- A storage that moves to a larger buffer and keeps nothing is empty there. -/
theorem reallocateDiscarding_leads (host : Host (Storage α)) (more : host.container.capacity < count) :
    Leads (reallocateDiscarding count) host
      (fun _ after => after.container.items = #[] ∧ after.container.capacity = count)
      (fun fault after => after.container = host.container ∧ Denied host count fault) := by
  unfold reallocateDiscarding
  apply current_then
  split
  · rename_i inline
    exact ⟨rfl, .fixed inline⟩
  · rename_i heap
    rw [Storage.capacity, heap] at more
    rw [leads_bind, leads_require, if_pos (by exact more), leads_bind]
    apply (acquire_leads _ count).mono
    · intro address after kept
      exact ⟨rfl, rfl⟩
    · rintro fault after ⟨kept, ⟨rfl, large⟩ | ⟨rfl, nonempty, refuses⟩⟩
      · exact ⟨kept, .overflow heap large⟩
      · exact ⟨kept, .refused heap nonempty refuses⟩

end Storage

namespace Vector
variable {α : Type} [Stored α] {host : Host (Vector α)}

/-- The capacity to which a full vector grows. -/
def doubled (capacity : Nat) : Nat :=
  if capacity = 0 then initialCapacity else 2 * capacity

theorem lt_doubled (capacity : Nat) : capacity < doubled capacity := by
  unfold doubled initialCapacity
  split <;> omega

/-- A full vector moves to twice its capacity if that can be counted, and panics otherwise. -/
theorem growIfFull_then {done : Unit → Host (Vector α) → Prop} {failed : Fault → Host (Vector α) → Prop}
    (moves : host.container.size = host.container.capacity → doubled host.container.capacity ≤ maxCount →
      Leads (Storage.reallocate (doubled host.container.capacity)) host done failed)
    (large : host.container.size = host.container.capacity → maxCount < doubled host.container.capacity →
      failed (.panicked .capacityOverflow) host)
    (room : host.container.size ≠ host.container.capacity → done () host) :
    Leads growIfFull host done failed := by
  unfold growIfFull
  apply current_then
  split
  · rename_i full
    unfold grow
    apply current_then
    unfold doubled at moves large
    split
    · rename_i empty
      rw [if_pos empty] at moves
      exact moves full (by decide)
    · rename_i nonempty
      rw [if_neg nonempty] at moves large
      rw [leads_bind, leads_require]
      split
      · exact moves full ‹_›
      · exact large full (Nat.not_le.mp ‹_›)
  · exact room ‹_›

/-- Why a full vector does not grow: its capacity cannot be doubled, or the
storage does not move. -/
inductive Stuck (host : Host (Vector α)) : Fault → Prop where
  | overflow (full : host.container.size = host.container.capacity)
      (large : maxCount < 2 * host.container.capacity) : Stuck host (.panicked .capacityOverflow)
  | denied {fault : Fault} (full : host.container.size = host.container.capacity)
      (denied : Storage.Denied host (doubled host.container.capacity) fault) : Stuck host fault

/-- Growing by one keeps the elements and makes room for another one. -/
theorem growIfFull_leads (host : Host (Vector α)) :
    Leads growIfFull host
      (fun _ after => after.container.items = host.container.items ∧
        (host.container.Fits → host.container.size < after.container.capacity))
      (fun fault after => after.container = host.container ∧ Stuck host fault) := by
  refine growIfFull_then (fun full _ => ?_) (fun full large => ⟨rfl, .overflow full ?_⟩) fun room => ?_
  · have more : host.container.size < doubled host.container.capacity := full ▸ lt_doubled _
    refine (Storage.reallocate_leads host _).mono ?_ ?_
    · rintro _ after ⟨items, capacity⟩
      rw [Nat.min_eq_left (Nat.le_of_lt more)] at items
      exact ⟨items.trans Array.extract_size, fun _ => capacity ▸ more⟩
    · rintro fault after ⟨kept, denied⟩
      exact ⟨kept, .denied full denied⟩
  · unfold doubled at large
    split at large
    · exact absurd large (by decide)
    · exact large
  · exact ⟨rfl, fun fits => Nat.lt_of_le_of_ne fits room⟩

/-- An element is appended, or the vector stays as it was. -/
theorem tryPush_leads (host : Host (Vector α)) (x : α) :
    Leads (tryPush x) host
      (fun _ after => after.container.items = host.container.items.push x ∧
        (host.container.Fits → after.container.Fits))
      (fun fault after => after.container = host.container ∧ Stuck host fault) := by
  unfold tryPush
  rw [leads_bind]
  refine (growIfFull_leads host).mono ?_ fun _ _ failed => failed
  rintro _ after ⟨items, room⟩
  rw [Storage.rewrite, leads_update]
  refine ⟨congrArg (·.push x) items, fun fits => ?_⟩
  have := room fits
  simp only [Storage.Fits, Storage.size, Storage.capacity, items, Array.size_push] at *
  omega

theorem le_capacityFor {β : Type} (needed : Nat) (v : Vector β) : needed ≤ v.capacityFor needed := by
  unfold capacityFor
  split
  · exact Nat.le_max_left ..
  · exact Nat.le_max_left ..

theorem capacityFor_le {β : Type} {needed : Nat} (v : Vector β) (le : needed ≤ maxCount) :
    v.capacityFor needed ≤ maxCount := by
  unfold capacityFor
  split
  · exact Nat.max_le.mpr ⟨le, by decide⟩
  · exact Nat.max_le.mpr ⟨le, Nat.min_le_right ..⟩

/-- There is no room for so many elements, and the storage does not move to make it. -/
structure NoRoom (host : Host (Vector α)) (needed : Nat) (fault : Fault) : Prop where
  lacking : host.container.capacity < needed
  denied : Storage.Denied host (host.container.capacityFor needed) fault

/-- Making room for more elements than there are keeps all of them. -/
theorem makeRoom_leads {needed : Nat} (more : host.container.size ≤ needed)
    (lacking : host.container.capacity < needed) :
    Leads (Storage.reallocate (host.container.capacityFor needed)) host
      (fun _ after => after.container.items = host.container.items ∧ needed ≤ after.container.capacity)
      (fun fault after => after.container = host.container ∧ NoRoom host needed fault) := by
  have enough := host.container.le_capacityFor needed
  apply (Storage.reallocate_leads host _).mono
  · rintro _ after ⟨items, capacity⟩
    rw [Nat.min_eq_left (Nat.le_trans more enough)] at items
    exact ⟨items.trans Array.extract_size, capacity ▸ enough⟩
  · rintro fault after ⟨kept, denied⟩
    exact ⟨kept, lacking, denied⟩

end Vector

end Containers
