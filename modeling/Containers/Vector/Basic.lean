import Containers.Storage.Basic
import Containers.Storage.Slots

/-! A vector is a storage whose constructed slots are its contents; the
operations here decide when the storage has to grow and by how much. Growing
doubles the capacity, starting from sixteen slots. An operation whose name
begins with `try` hands a refusal to its caller; the others end the run. -/
namespace Containers

/-- A growable sequence on a storage. -/
abbrev Vector (α : Type) := Storage α

namespace Vector
variable {α : Type}

/-- The capacity to which an empty vector first grows. -/
def initialCapacity : Nat := 16

/-- The capacity to move to so that `needed` slots exist: at least double the
present one. -/
def capacityFor (needed : Nat) (v : Vector α) : Nat :=
  if v.capacity = 0 then max needed initialCapacity
  else max needed (min (2 * v.capacity) maxCount)

variable [Stored α]

/-- Doubles the capacity. -/
def grow : Op (Vector α) Unit := do
  let v ← Op.current
  if v.capacity = 0 then
    Storage.reallocate initialCapacity
  else do
    Op.require (2 * v.capacity ≤ maxCount) .capacityOverflow
    Storage.reallocate (2 * v.capacity)

/-- Grows if every slot is constructed. -/
def growIfFull : Op (Vector α) Unit := do
  let v ← Op.current
  if v.size = v.capacity then grow

/-- Appends an element. -/
def tryPush (x : α) : Op (Vector α) Unit := do
  growIfFull
  Storage.rewrite (·.push x)

/-- Appends an element. -/
def push (x : α) : Op (Vector α) Unit :=
  Op.orAbort (tryPush x)

/-- Takes the last element out, if there is one. -/
def pop : Op (Vector α) (Option α) := do
  let v ← Op.current
  Storage.rewrite Array.pop
  return v.items.back?

/-- Puts an element before the one at `position`, or at the end, and answers
its place. -/
def tryInsert (position : Nat) (x : α) : Op (Vector α) Nat := do
  let v ← Op.current
  Op.require (position ≤ v.size) (.insertIndex position v.size)
  growIfFull
  Storage.rewrite fun slots => Slots.insert slots position 1 x
  return position

/-- Puts an element before the one at `position`. -/
def insert (position : Nat) (x : α) : Op (Vector α) Nat :=
  Op.orAbort (tryInsert position x)

/-- Puts `n` copies of an element before the one at `position`, and answers
the place of the first. -/
def tryInsertMany (position n : Nat) (x : α) : Op (Vector α) Nat := do
  let v ← Op.current
  Op.require (position ≤ v.size) (.insertIndex position v.size)
  if n = 0 then
    return position
  Op.require (v.size + n ≤ maxCount) .capacityOverflow
  if v.capacity < v.size + n then
    Storage.reallocate (v.capacityFor (v.size + n))
  Storage.rewrite fun slots => Slots.insert slots position n x
  return position

/-- Puts `n` copies of an element before the one at `position`. -/
def insertMany (position n : Nat) (x : α) : Op (Vector α) Nat :=
  Op.orAbort (tryInsertMany position n x)

/-- Takes the element at `position` out and moves the tail down. -/
def remove (position : Nat) : Op (Vector α) α := do
  let v ← Op.current
  match v.items[position]? with
  | none => Op.fail (.eraseIndex position v.size)
  | some x =>
    Storage.rewrite fun slots => Slots.erase slots position (position + 1)
    return x

/-- Drops the element at `position` and answers the place of the one that
followed it. -/
def erase (position : Nat) : Op (Vector α) Nat := do
  let _ ← remove position
  return position

/-- Drops the elements from `start` up to `stop` and answers the place of the
one that followed them; an empty or inverted range drops nothing and answers
the length. -/
def eraseRange (start stop : Nat) : Op (Vector α) Nat := do
  let v ← Op.current
  if stop ≤ start then
    return v.size
  Op.require (stop ≤ v.size) (.eraseRangeEnd stop v.size)
  Storage.rewrite fun slots => Slots.erase slots start stop
  return start

/-- Takes the element at `position` out and puts the last one in its place. -/
def swapErase (position : Nat) : Op (Vector α) α := do
  let v ← Op.current
  match v.items[position]? with
  | none => Op.fail (.eraseIndex position v.size)
  | some x =>
    Storage.rewrite fun slots => Slots.swapErase slots position
    return x

/-- Drops every element from `size` on. -/
def truncate (size : Nat) : Op (Vector α) Unit :=
  Storage.rewrite fun slots => slots.extract 0 (min size slots.size)

/-- Drops every element and keeps the buffer. -/
def clear : Op (Vector α) Unit :=
  truncate 0

/-- Grows with default values or shrinks to `size` elements. -/
def resize [Inhabited α] (size : Nat) : Op (Vector α) Unit := do
  let v ← Op.current
  if size ≤ v.size then
    truncate size
  else do
    if v.capacity < size then
      Op.orAbort (Storage.reallocate (v.capacityFor size))
    Storage.rewrite fun slots => slots ++ Array.replicate (size - slots.size) default

/-- Grows with copies of a value or shrinks to `size` elements. -/
def resizeWith (size : Nat) (x : α) : Op (Vector α) Unit := do
  let v ← Op.current
  if v.size < size then
    let _ ← insertMany v.size (size - v.size) x
  else
    truncate size

/-- Makes room for `capacity` elements in all, and for no more. -/
def tryReserve (capacity : Nat) : Op (Vector α) Unit := do
  let v ← Op.current
  if v.capacity < capacity then
    Storage.reallocate capacity

/-- Makes room for `capacity` elements in all. -/
def reserve (capacity : Nat) : Op (Vector α) Unit :=
  Op.orAbort (tryReserve capacity)

/-- Moves to a buffer of exactly `capacity` slots and drops what does not fit. -/
def setCapacity (capacity : Nat) : Op (Vector α) Unit :=
  Op.orAbort (Storage.reallocate capacity)

/-- Holds a copy of `items` and nothing else; if that needs a larger buffer
and none is granted, it holds nothing. -/
def tryAssign (items : List α) : Op (Vector α) Unit := do
  clear
  let v ← Op.current
  if v.capacity < items.length then
    Storage.reallocateDiscarding (v.capacityFor items.length)
  Storage.rewrite (· ++ items)

/-- Holds a copy of `items` and nothing else. -/
def assign (items : List α) : Op (Vector α) Unit :=
  Op.orAbort (tryAssign items)

/-- Makes room at once for so many more elements, as far as they can be counted. -/
def announce (promised : Nat) : Op (Vector α) Unit := do
  let v ← Op.current
  let wanted := min (v.size + promised) maxCount
  if v.capacity < wanted then
    Op.orAbort (Storage.reallocate (v.capacityFor wanted))

/-- Appends elements of which at least `promised` were announced: room for
those is made at once, and every element is then pushed. -/
def extendHinted (items : List α) (promised : Nat) : Op (Vector α) Unit := do
  announce promised
  items.forM push

/-- Appends elements whose number is known. -/
def extend (items : List α) : Op (Vector α) Unit :=
  extendHinted items items.length

/-- The element at `position`. -/
def get (position : Nat) : Op (Vector α) α := do
  let v ← Op.current
  match v.items[position]? with
  | some x => return x
  | none => Op.fail (.index position v.size)

/-- Overwrites the element at `position`. -/
def set (position : Nat) (x : α) : Op (Vector α) Unit := do
  let v ← Op.current
  Op.require (position < v.size) (.index position v.size)
  Storage.rewrite (·.setIfInBounds position x)

/-- The first element. -/
def front : Op (Vector α) α := do
  let v ← Op.current
  Op.require (v.size ≠ 0) (.emptyVector .front)
  get 0

/-- Overwrites the first element. -/
def setFront (x : α) : Op (Vector α) Unit := do
  let v ← Op.current
  Op.require (v.size ≠ 0) (.emptyVector .frontWrite)
  set 0 x

/-- The last element. -/
def back : Op (Vector α) α := do
  let v ← Op.current
  Op.require (v.size ≠ 0) (.emptyVector .back)
  get (v.size - 1)

/-- Overwrites the last element. -/
def setBack (x : α) : Op (Vector α) Unit := do
  let v ← Op.current
  Op.require (v.size ≠ 0) (.emptyVector .backWrite)
  set (v.size - 1) x

/-- The element at `position` of the plain sequence. -/
def item (position : Nat) : Op (Vector α) α := do
  let v ← Op.current
  match v.items[position]? with
  | some x => return x
  | none => throw .outOfRange

/-- Overwrites the element at `position` of the plain sequence. -/
def setItem (position : Nat) (x : α) : Op (Vector α) Unit := do
  let v ← Op.current
  if position < v.size then
    Storage.rewrite (·.setIfInBounds position x)
  else
    throw .outOfRange

/-- Changes every element in place. -/
def modifyEach (change : α → α) : Op (Vector α) Unit :=
  Storage.rewrite (·.map change)

/-- The place of the first element equal to `x`. -/
def find [BEq α] (x : α) : Op (Vector α) (Option Nat) := do
  let v ← Op.current
  return v.items.findIdx? (· == x)

/-- The place of the first element equal to `x` at or behind `start`. -/
def findFrom [BEq α] (x : α) (start : Nat) : Op (Vector α) (Option Nat) := do
  let v ← Op.current
  Op.require (start ≤ v.size) (.startIndex start v.size)
  return ((v.items.extract start v.size).findIdx? (· == x)).map (· + start)

/-- A copy of a vector: on the heap it draws on the same allocator, and unless
it is empty its buffer has the same capacity. -/
def clone (v : Vector α) : Op σ (Vector α) :=
  Op.build ⟨v.engine.emptied, #[]⟩ do
    match v.engine with
    | .heap _ capacity _ =>
      if v.size ≠ 0 then
        Op.orAbort (Storage.reallocateDiscarding capacity)
        extend v.items.toList
    | .inline _ => extend v.items.toList

/-- Puts a new vector in place of the current one; it starts empty, draws on
the first allocator, and is filled before the old one is dropped. -/
def renew (fill : Op (Vector α) Unit) : Op (Vector α) Unit := do
  let v ← Op.current
  let made ← Op.build ⟨v.engine.fresh, #[]⟩ fill
  Op.replace made

end Vector

end Containers
