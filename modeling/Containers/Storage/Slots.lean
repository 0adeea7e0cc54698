/-! Moves of elements inside one buffer. A gap opens by moving the tail up,
last slot first, and closes by moving it down, first slot first, so that no
slot is overwritten before it was read. -/
namespace Containers.Slots
variable {α : Type}

/-- Copies one slot onto another; a slot outside the buffer is left alone. -/
def copy (slots : Array α) (source target : Nat) : Array α :=
  match slots[source]? with
  | some x => slots.setIfInBounds target x
  | none => slots

/-- Copies the `count` slots from `start` on up by `n`, the last one first. -/
def moveUp (slots : Array α) (start n : Nat) : Nat → Array α
  | 0 => slots
  | count + 1 => moveUp (copy slots (start + count) (start + count + n)) start n count

/-- Copies the `count` slots from `start` on down by `n`, the first one first. -/
def moveDown (slots : Array α) (start n : Nat) : Nat → Array α
  | 0 => slots
  | count + 1 => moveDown (copy slots start (start - n)) (start + 1) n count

/-- Writes `x` to the `count` slots from `start` on. -/
def fill (slots : Array α) (start : Nat) (x : α) : Nat → Array α
  | 0 => slots
  | count + 1 => fill (slots.setIfInBounds start x) (start + 1) x count

/-- Lengthens the run by `n` slots and moves the tail behind `position` up,
after which the gap still shows what was there before. -/
def openGap (slots : Array α) (position n : Nat) (x : α) : Array α :=
  moveUp (slots ++ Array.replicate n x) position n (slots.size - position)

/-- Puts `n` copies of `x` before the element at `position`. -/
def insert (slots : Array α) (position n : Nat) (x : α) : Array α :=
  fill (openGap slots position n x) position x n

/-- Takes the slots from `start` up to `stop` out and moves the tail down. -/
def erase (slots : Array α) (start stop : Nat) : Array α :=
  (moveDown slots stop (stop - start) (slots.size - stop)).extract 0
    (slots.size - (stop - start))

/-- Puts the last element in place of the one at `position`. -/
def swapErase (slots : Array α) (position : Nat) : Array α :=
  (copy slots (slots.size - 1) position).pop

end Containers.Slots
