import Containers.Proofs.Ledger
import Containers.Storage.Basic

/-! Storages keep their ledgers. A storage owns one block of as many bytes as its
slots take, on the allocator in use, and none if that is no byte at all. Whenever it
moves, the new block is granted while the old one is outstanding, and the old one is
freed once and right after that; if the new block is not granted, nothing is freed. -/
namespace Containers

section Engines
variable {α : Type} [Stored α]

/-- The block on an allocator that a buffer lies in: as many elements as there are
slots, on the allocator in use, and none if that comes to no byte. -/
def Engine.owned (α : Type) [Stored α] : Engine → AllocatorId → Option Block
  | .heap own capacity address, id =>
    if own = id ∧ capacity * elementSize α ≠ 0 then some ⟨address, (Stored.layout α).array capacity⟩ else none
  | .inline _, _ => none

theorem Engine.release_history (engine : Engine) (pool : Pool) (id : AllocatorId) :
    ((engine.release α pool).get id).history = (pool.get id).history.free? (engine.owned α id) := by
  cases engine with
  | inline capacity => rfl
  | heap own capacity address =>
    simp only [release, owned]
    by_cases empty : capacity = 0 ∨ elementSize α = 0
    · have none : ¬ (own = id ∧ capacity * elementSize α ≠ 0) := by
        rw [Nat.mul_ne_zero_iff]
        omega
      rw [if_pos empty, if_neg none]
      rfl
    · have some : capacity * elementSize α ≠ 0 := by
        rw [Nat.mul_ne_zero_iff]
        omega
      rw [if_neg empty, Pool.free, Pool.history_set]
      by_cases same : id = own
      · subst same
        rw [if_pos rfl, if_pos ⟨rfl, some⟩]
        rfl
      · rw [if_neg same, if_neg fun both => same both.1.symm]
        rfl

theorem Engine.owned_emptied (engine : Engine) (id : AllocatorId) : engine.emptied.owned α id = none := by
  cases engine with
  | inline capacity => rfl
  | heap own capacity address =>
    rw [emptied, owned, Nat.zero_mul]
    simp

theorem Engine.owned_fresh (engine : Engine) (id : AllocatorId) : engine.fresh.owned α id = none := by
  cases engine with
  | inline capacity => rfl
  | heap own capacity address =>
    rw [fresh, owned, Nat.zero_mul]
    simp

instance : Holding (Storage α) where
  owned storage := storage.engine.owned α
  dispose_history storage := storage.engine.release_history

end Engines

namespace Storage
variable {α σ : Type} [Stored α]

/-- The block that the container owns afterwards was granted, if there is one, and
then the block that it owned before was freed. -/
def Moved (before after : Host (Storage α)) : Prop :=
  ∀ id, (after.pool.get id).history =
    ((before.pool.get id).history.grant? (Holding.owned after.container id)).free?
      (Holding.owned before.container id)

/-- No block was granted and none was freed; at most a refusal was noted. -/
def Declined (before after : Pool) : Prop :=
  ∀ id, (after.get id).history = (before.get id).history ∨
    ∃ layout, (after.get id).history = .refused layout :: (before.get id).history

theorem declined_refl (pool : Pool) : Declined pool pool :=
  fun _ => .inl rfl

/-- The block of a new buffer is granted, or nothing but a refusal is noted. -/
theorem acquire_grants (host : Host σ) (own : AllocatorId) (count : Nat) :
    Leads (acquire α own count) host
      (fun address after => after.container = host.container ∧ ∀ id, (after.pool.get id).history =
        (host.pool.get id).history.grant? ((Engine.heap own count address).owned α id))
      fun _ after => after.container = host.container ∧ Declined host.pool after.pool := by
  unfold acquire
  rw [leads_bind, leads_require]
  split
  · split
    · rename_i empty
      refine ⟨rfl, fun id => ?_⟩
      simp [Engine.owned, empty, History.grant?]
    · rename_i nonempty
      rw [leads_bind, leads_request]
      cases rule : (host.pool.get own).admits ((Stored.layout α).array count) with
      | true =>
        simp only [Pool.allocate, Allocator.allocate, rule, ↓reduceIte]
        refine ⟨rfl, fun id => ?_⟩
        rw [Pool.history_set, Engine.owned]
        by_cases same : id = own
        · subst same
          rw [if_pos rfl, if_pos ⟨rfl, nonempty⟩]
          rfl
        · rw [if_neg same, if_neg fun both => same both.1.symm]
          rfl
      | false =>
        simp only [Pool.allocate, Allocator.allocate, rule, Bool.false_eq_true, ↓reduceIte]
        refine ⟨trivial, fun id => ?_⟩
        rw [Pool.history_set]
        by_cases same : id = own
        · subst same
          rw [if_pos rfl]
          exact .inr ⟨_, rfl⟩
        · rw [if_neg same]
          exact .inl rfl
  · exact ⟨rfl, declined_refl _⟩

/-- A storage that moves is granted the new block first and then frees the old one;
one that does not frees nothing. -/
theorem reallocate_moves (host : Host (Storage α)) (count : Nat) :
    Leads (reallocate count) host (fun _ after => Moved host after)
      fun _ after => after.container = host.container ∧ Declined host.pool after.pool := by
  unfold reallocate
  apply current_then
  split
  · exact ⟨rfl, declined_refl _⟩
  · rename_i own _ _ heap
    rw [leads_bind]
    apply (acquire_grants host own count).mono
    · rintro address after ⟨kept, granted⟩
      intro id
      dsimp only
      rw [heap, Engine.release_history, granted, ← heap]
      rfl
    · rintro fault after declined
      exact declined

theorem reallocateDiscarding_moves (host : Host (Storage α)) (count : Nat) :
    Leads (reallocateDiscarding count) host (fun _ after => Moved host after)
      fun _ after => after.container = host.container ∧ Declined host.pool after.pool := by
  unfold reallocateDiscarding
  apply current_then
  split
  · exact ⟨rfl, declined_refl _⟩
  · rename_i own capacity _ heap
    rw [leads_bind, leads_require]
    split
    · rw [leads_bind]
      apply (acquire_grants host own count).mono
      · rintro address after ⟨kept, granted⟩
        intro id
        dsimp only
        rw [heap, Engine.release_history, granted, ← heap]
        rfl
      · rintro fault after declined
        exact declined
    · exact ⟨rfl, declined_refl _⟩

variable {start : Pool} {host after : Host (Storage α)}

theorem Moved.ledger (moved : Moved host after) (ledger : Ledger start host) : Ledger start after := by
  intro id
  obtain ⟨continues, holds⟩ := ledger id
  have granted : ((host.pool.get id).history.grant? (Holding.owned after.container id)).outstanding =
      (Holding.owned after.container id).toList ++
        ((Holding.owned host.container id).toList ++ (start.get id).history.outstanding) := by
    rw [History.outstanding_grant?, holds]
  rw [moved id]
  exact ⟨continues.grant?.free? granted, History.outstanding_free? granted⟩

theorem Declined.ledger (declined : Declined host.pool after.pool) (kept : after.container = host.container)
    (ledger : Ledger start host) : Ledger start after := by
  intro id
  obtain ⟨continues, holds⟩ := ledger id
  rw [kept]
  rcases declined id with same | ⟨layout, noted⟩
  · rw [same]
    exact ⟨continues, holds⟩
  · rw [noted]
    exact ⟨.refused layout continues, holds⟩

/-- What moves as a whole or frees nothing accounts for its blocks. -/
theorem accounts_of_moves {β : Type} {op : Op (Storage α) β}
    (moves : ∀ host, Leads op host (fun _ after => Moved host after)
      fun _ after => after.container = host.container ∧ Declined host.pool after.pool) : Accounts op := by
  intro start host ledger
  apply (moves host).mono
  · intro answer after moved
    exact moved.ledger ledger
  · rintro fault after ⟨kept, declined⟩
    exact declined.ledger kept ledger

theorem accounts_reallocate (count : Nat) : Accounts (reallocate count : Op (Storage α) Unit) :=
  accounts_of_moves fun host => reallocate_moves host count

theorem accounts_reallocateDiscarding (count : Nat) : Accounts (reallocateDiscarding count : Op (Storage α) Unit) :=
  accounts_of_moves fun host => reallocateDiscarding_moves host count

/-- The allocator only changes while no block is owned. -/
theorem accounts_setAllocator (id : AllocatorId) : Accounts (setAllocator id : Op (Storage α) Unit) := by
  apply accounts_update
  intro storage
  split
  · rename_i own capacity address heap
    split
    · rename_i empty
      have none : capacity * elementSize α = 0 := Nat.mul_eq_zero.mpr empty
      funext other
      simp [Holding.owned, Engine.owned, heap, none]
    · rfl
  · rfl

end Storage

end Containers
