/-! The shortest decimal that reads back as a given binary fraction. All
arithmetic is exact: a number between two neighbours rounds to the fraction
exactly when it lies in an interval around it, and the coarsest decimal grid
with a point in that interval has the fewest digits. -/
namespace Containers.Text

/-- The numbers that round to `center * 2 ^ exponent`: those from `low` to
`high` in the same unit, the ends included when `closed`. -/
structure RoundingInterval where
  low : Nat
  center : Nat
  high : Nat
  exponent : Int
  closed : Bool

namespace RoundingInterval

/-- The interval of `mantissa * 2 ^ exponent`. Below a power of two the
neighbours are half as far apart, unless the spacing is already the least. -/
def ofBinary (mantissa : Nat) (exponent : Int) (narrowBelow : Bool) : RoundingInterval where
  low := 4 * mantissa - (if narrowBelow then 1 else 2)
  center := 4 * mantissa
  high := 4 * mantissa + 2
  exponent := exponent - 2
  closed := mantissa % 2 = 0

/-- Whether `digits * 10 ^ place` lies in the interval, both sides scaled to
whole numbers by `fraction` and `unit`. -/
def holds (interval : RoundingInterval) (fraction unit digits : Nat) : Bool :=
  if interval.closed then
    interval.low * fraction ≤ digits * unit ∧ digits * unit ≤ interval.high * fraction
  else
    interval.low * fraction < digits * unit ∧ digits * unit < interval.high * fraction

/-- The point of the grid of `10 ^ place` that is nearest to the centre among
those in the interval, the upper one if two are equally near. -/
def gridPoint? (interval : RoundingInterval) (place : Int) : Option Nat :=
  let fraction := Nat.pow 10 (-place).toNat <<< interval.exponent.toNat
  let unit := Nat.pow 10 place.toNat <<< (-interval.exponent).toNat
  let below := interval.center * fraction / unit
  let rest := interval.center * fraction % unit
  let first := if 2 * rest < unit then below else below + 1
  let second := if 2 * rest < unit then below + 1 else below
  if interval.holds fraction unit first then some first
  else if interval.holds fraction unit second then some second
  else none

/-- Tries ever finer grids, beginning with that of `10 ^ place`. -/
def search (interval : RoundingInterval) (place : Int) : Nat → Option (Nat × Int)
  | 0 => none
  | tries + 1 =>
    match interval.gridPoint? place with
    | some digits => some (digits, place)
    | none => search interval (place - 1) tries

end RoundingInterval

/-- Digits and the place of the last one, for a positive binary fraction with
an exponent that a double can have. -/
def shortest (mantissa : Nat) (exponent : Int) (narrowBelow : Bool) : Nat × Int :=
  ((RoundingInterval.ofBinary mantissa exponent narrowBelow).search 310 660).getD (mantissa, 0)

/-- Digits with a point: always at least one digit on either side. -/
def positional (digits : Nat) (place : Int) : String :=
  let text := toString digits
  if 0 ≤ place then
    text ++ String.ofList (List.replicate place.toNat '0') ++ ".0"
  else
    let behind := (-place).toNat
    let padded := List.replicate (behind + 1 - text.length) '0' ++ text.toList
    String.ofList (padded.take (padded.length - behind)) ++ "." ++
      String.ofList (padded.drop (padded.length - behind))

/-- Digits with a power of ten: one digit before the point, and no point
behind a single digit. -/
def scientific (digits : Nat) (place : Int) : String :=
  let text := (toString digits).toList
  let power := place + (text.length - 1 : Nat)
  String.ofList (text.take 1) ++
    (if text.length ≤ 1 then "" else "." ++ String.ofList (text.drop 1)) ++
    "e" ++ toString power

/-- A positive number is positional from a ten-thousandth up to below ten
thousand million million, and has a power of ten otherwise. -/
def decimal (digits : Nat) (place : Int) : String :=
  let magnitude := place + ((toString digits).length : Nat)
  if -3 ≤ magnitude ∧ magnitude ≤ 16 then positional digits place
  else scientific digits place

end Containers.Text
