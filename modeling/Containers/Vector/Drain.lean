import Containers.Vector.Basic

/-! Consuming a vector from both ends. A drain takes the whole storage over;
it reads the buffer between two positions that only move towards each other,
and it frees the buffer once, when it is dropped. -/
namespace Containers

/-- A vector that is being consumed: `front` elements were taken from the
front, and those from `back` on were taken from the back. -/
structure Drain (α : Type) where
  engine : Engine
  buffer : Array α
  front : Nat
  back : Nat

namespace Drain
variable {α : Type}

/-- Takes a vector over. -/
def ofVector (v : Vector α) : Drain α :=
  ⟨v.engine, v.items, 0, v.size⟩

/-- The number of elements not yet taken. -/
def size (drain : Drain α) : Nat :=
  drain.back - drain.front

/-- The elements not yet taken. -/
def rest (drain : Drain α) : Array α :=
  drain.buffer.extract drain.front drain.back

/-- Takes the first element that is left. -/
def next (drain : Drain α) : Option α × Drain α :=
  if drain.front = drain.back then (none, drain)
  else (drain.buffer[drain.front]?, { drain with front := drain.front + 1 })

/-- Takes the last element that is left. -/
def nextBack (drain : Drain α) : Option α × Drain α :=
  if drain.front = drain.back then (none, drain)
  else (drain.buffer[drain.back - 1]?, { drain with back := drain.back - 1 })

/-- Takes an element from the given end. -/
def takeFrom : Side → Drain α → Option α × Drain α
  | .left => next
  | .right => nextBack

/-- Takes elements from the given ends in turn, and reports each together with
the number left behind it. -/
def takeAll : List Side → Drain α → List (Option α × Nat) × Drain α
  | [], drain => ([], drain)
  | side :: sides, drain =>
    let (x, shorter) := drain.takeFrom side
    let (later, last) := takeAll sides shorter
    ((x, shorter.size) :: later, last)

instance [Stored α] : Container (Drain α) where
  dispose drain := drain.engine.release α

end Drain

/-- What consuming a vector yielded, and what was left of it. -/
structure Drained (α : Type) where
  taken : List (Option α × Nat)
  rest : Array α

/-- Consumes the vector from the given ends, drops what is left, and goes on
with an empty vector on the first allocator. -/
def Vector.drain [Stored α] (sides : List Side) : Op (Vector α) (Drained α) := do
  let v ← Op.current
  Op.become ⟨v.engine.fresh, #[]⟩
  let (taken, drain) := (Drain.ofVector v).takeAll sides
  Op.settle (Container.dispose drain)
  return ⟨taken, drain.rest⟩

end Containers
