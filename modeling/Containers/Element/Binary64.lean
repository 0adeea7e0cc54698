import Containers.Memory.Layout
import Containers.Text.Shown
import Containers.Text.Shortest

/-! Double-precision numbers as their bits, with the comparison that tells no
two zeros apart and holds of no number that is not one. -/
namespace Containers

/-- A double-precision number. -/
structure Binary64 where
  bits : UInt64

namespace Binary64

/-- The sign bit. -/
def signBit : UInt64 := 0x8000000000000000

/-- The bits without the sign. -/
def magnitude (x : Binary64) : UInt64 :=
  x.bits &&& (signBit - 1)

/-- Whether the sign bit is set. -/
def isNegative (x : Binary64) : Bool :=
  x.bits &&& signBit ≠ 0

/-- The bits of the positive infinity. -/
def infinityBits : UInt64 := 0x7ff0000000000000

/-- Whether the bits stand for no number. -/
def isNaN (x : Binary64) : Bool :=
  infinityBits < x.magnitude

/-- No number equals a bit pattern that stands for none, and both zeros are
equal; otherwise the bits decide. -/
def equals (x y : Binary64) : Bool :=
  !x.isNaN && !y.isNaN && (x.bits == y.bits || (x.magnitude == 0 && y.magnitude == 0))

instance : BEq Binary64 := ⟨equals⟩

instance : Inhabited Binary64 := ⟨⟨0⟩⟩

/-- The number with the other sign. -/
def negate (x : Binary64) : Binary64 :=
  ⟨x.bits ^^^ signBit⟩

/-- The field that holds the exponent. -/
def exponentField (x : Binary64) : Nat :=
  (x.magnitude >>> 52).toNat

/-- The field that holds the fraction. -/
def fractionField (x : Binary64) : Nat :=
  (x.magnitude &&& 0x000fffffffffffff).toNat

/-- The text of a number without its sign. -/
def magnitudeText (x : Binary64) : String :=
  if x.isNaN then "NaN"
  else if x.magnitude = infinityBits then "inf"
  else if x.magnitude = 0 then "0.0"
  else
    let subnormal := x.exponentField = 0
    let mantissa := if subnormal then x.fractionField else x.fractionField + 1 <<< 52
    let exponent : Int := (if subnormal then 1 else x.exponentField : Nat) - 1075
    let (digits, place) :=
      Text.shortest mantissa exponent (x.fractionField = 0 ∧ 1 < x.exponentField)
    Text.decimal digits place

/-- The text of a number; what is no number shows no sign. -/
def text (x : Binary64) : String :=
  if x.isNegative ∧ !x.isNaN then "-" ++ x.magnitudeText else x.magnitudeText

instance : Shown Binary64 := ⟨text⟩

instance : Stored Binary64 where
  layout := .word

end Binary64

end Containers
