import Containers.Memory.Host

/-! A storage owns a buffer of slots, of which the first ones are constructed.
On the heap the buffer comes from an allocator and moves when it grows; inline
it has one capacity for ever and asking for another is a panic. A buffer of no
bytes is never requested and never freed. -/
namespace Containers

/-- Where the slots of a storage lie. -/
inductive Engine where
  /-- A buffer from the allocator in use, at the address it was granted. -/
  | heap (allocator : AllocatorId) (capacity address : Nat)
  /-- A buffer inside the container itself. -/
  | inline (capacity : Nat)
deriving DecidableEq

namespace Engine

/-- The number of slots. -/
def capacity : Engine → Nat
  | .heap _ capacity _ => capacity
  | .inline capacity => capacity

/-- The allocator in use, if the slots come from one. -/
def allocator? : Engine → Option AllocatorId
  | .heap id _ _ => some id
  | .inline _ => none

/-- The engine of the same kind before anything was stored; on the heap it
draws on the first allocator. -/
def fresh : Engine → Engine
  | .heap _ _ _ => .heap .a 0 0
  | .inline capacity => .inline capacity

/-- The engine without its buffer, drawing on the same allocator. -/
def emptied : Engine → Engine
  | .heap id _ _ => .heap id 0 0
  | .inline capacity => .inline capacity

/-- Frees the buffer, whose layout is computed anew from the capacity. -/
def release (α : Type) [Stored α] : Engine → Pool → Pool
  | .heap id capacity address, pool =>
    if capacity = 0 ∨ elementSize α = 0 then pool
    else pool.free id ⟨address, (Stored.layout α).array capacity⟩
  | .inline _, pool => pool

end Engine

/-- A buffer of slots together with what the constructed ones hold. -/
structure Storage (α : Type) where
  engine : Engine
  items : Array α := #[]

namespace Storage
variable {α : Type}

/-- The number of constructed slots. -/
def size (storage : Storage α) : Nat :=
  storage.items.size

/-- The number of slots. -/
def capacity (storage : Storage α) : Nat :=
  storage.engine.capacity

/-- No more slots are constructed than there are. -/
def Fits (storage : Storage α) : Prop :=
  storage.size ≤ storage.capacity

instance (storage : Storage α) : Decidable storage.Fits :=
  inferInstanceAs (Decidable (_ ≤ _))

variable [Stored α]

instance : Container (Storage α) where
  dispose storage := storage.engine.release α

/-- Obtains a buffer of `count` slots and answers its address. -/
def acquire (α : Type) [Stored α] (id : AllocatorId) (count : Nat) : Op σ Nat := do
  Op.require (count * elementSize α ≤ maxBytes) .capacityOverflow
  if count * elementSize α = 0 then
    return 0
  let block ← Op.request id ((Stored.layout α).array count)
  return block.start

/-- Moves to a buffer of `count` slots and keeps the elements that fit. The
old buffer is freed after the new one was granted. -/
def reallocate (count : Nat) : Op (Storage α) Unit := do
  let storage ← Op.current
  match storage.engine with
  | .inline capacity => Op.fail (.fixedCapacity count capacity)
  | .heap id _ _ =>
    let address ← acquire α id count
    Op.settle (storage.engine.release α)
    Op.become ⟨.heap id count address, storage.items.extract 0 (min storage.size count)⟩

/-- Moves to a larger buffer and keeps nothing. -/
def reallocateDiscarding (count : Nat) : Op (Storage α) Unit := do
  let storage ← Op.current
  match storage.engine with
  | .inline capacity => Op.fail (.fixedCapacity count capacity)
  | .heap id capacity _ =>
    Op.require (capacity < count) .discardWithoutGrowth
    let address ← acquire α id count
    Op.settle (storage.engine.release α)
    Op.become ⟨.heap id count address, #[]⟩

/-- Drops the elements and frees the buffer. -/
def reset : Op (Storage α) Unit := do
  let storage ← Op.current
  Op.settle (storage.engine.release α)
  Op.become ⟨storage.engine.emptied, #[]⟩

/-- Draws on another allocator from now on, unless a buffer is held. -/
def setAllocator (id : AllocatorId) : Op (Storage α) Unit :=
  Op.update fun storage =>
    match storage.engine with
    | .heap _ capacity address =>
      if capacity = 0 ∨ elementSize α = 0 then
        { storage with engine := .heap id capacity address }
      else storage
    | .inline _ => storage

/-- Constructs the next slot, if there is room for it. -/
def put (x : α) : Op (Storage α) Bool := do
  let storage ← Op.current
  if storage.size < storage.capacity then
    Op.become { storage with items := storage.items.push x }
    return true
  return false

/-- Changes what the constructed slots hold. -/
def rewrite (change : Array α → Array α) : Op (Storage α) Unit :=
  Op.update fun storage => { storage with items := change storage.items }

end Storage

end Containers
