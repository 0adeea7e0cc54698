/-! Sizes and alignments of memory, counted in natural numbers. The limits of a
machine word appear as explicit bounds, so that no sum or product wraps. -/
namespace Containers

/-- The largest count that a machine word holds. -/
def maxCount : Nat := 0xFFFFFFFFFFFFFFFF

/-- The largest number of bytes that one buffer spans. -/
def maxBytes : Nat := 0x7FFFFFFFFFFFFFFF

/-- The least multiple of `align` at or above `n`, for a positive `align`. -/
def alignUp (n align : Nat) : Nat :=
  (n + (align - 1)) / align * align

/-- A request for memory: so many bytes, at an address that `align` divides. -/
structure Layout where
  size : Nat
  align : Nat
  align_pos : 0 < align := by decide
deriving DecidableEq

namespace Layout

/-- A machine word. -/
def word : Layout := { size := 8, align := 8 }

/-- A layout asks for a power of two as its alignment, and its size, rounded
up to that alignment, stays within one buffer. -/
def make? (size align : Nat) : Option Layout :=
  if power : align = 1 <<< align.log2 then
    if alignUp size align ≤ maxBytes then
      some { size, align, align_pos := by rw [power, Nat.one_shiftLeft]; exact Nat.two_pow_pos _ }
    else none
  else none

/-- `count` elements one after another. -/
def array (element : Layout) (count : Nat) : Layout :=
  { element with size := count * element.size }

/-- Two fields side by side, with padding only after the last. -/
def pair (first second : Layout) : Layout where
  size := alignUp (first.size + second.size) (max first.align second.align)
  align := max first.align second.align
  align_pos := Nat.lt_of_lt_of_le first.align_pos (Nat.le_max_left ..)

end Layout

/-- What one element occupies in a buffer. Text is kept elsewhere, and an
element that holds text occupies only its handle. -/
class Stored (α : Type) where
  layout : Layout

/-- The number of bytes that one element occupies. -/
def elementSize (α : Type) [Stored α] : Nat :=
  (Stored.layout α).size

instance [Stored α] [Stored β] : Stored (α × β) where
  layout := (Stored.layout α).pair (Stored.layout β)

end Containers
