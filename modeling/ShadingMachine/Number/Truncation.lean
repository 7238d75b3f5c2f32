import ShadingMachine.Number.Shortest

/-! Floats as whole numbers with a sign: of 64 bits without the fraction, or of 32 bits rounded
down. -/
namespace ShadingMachine.Number

/-- The magnitude without its fraction. -/
def Binary.whole (b : Binary) : Nat :=
  if 0 ≤ b.exponent then b.mantissa <<< b.exponent.toNat else b.mantissa >>> (-b.exponent).toNat

/-- The float without its fraction, or the end of the range that is nearest to it. What is not a
number counts as zero. -/
def truncate (x : Float32) : Int :=
  let least : Int := -0x8000000000000000
  let greatest : Int := 0x7FFFFFFFFFFFFFFF
  match partsOf x with
  | .notANumber => 0
  | .infinite negative => if negative then least else greatest
  | .finite negative magnitude =>
    let n : Int := magnitude.whole
    if negative then max least (-n) else min greatest n

/-- The whole number at or below, where the sign is given. -/
def Binary.floor (negative : Bool) (b : Binary) : Int :=
  let m : Int := if negative then -b.mantissa else b.mantissa
  if 0 ≤ b.exponent then m <<< b.exponent.toNat else m >>> (-b.exponent).toNat

/-- The whole number at or below the float, or the end of the range that is nearest to it. What is
not a number counts as zero. -/
def floorWord (x : Float32) : Int :=
  let least : Int := -0x80000000
  let greatest : Int := 0x7FFFFFFF
  match partsOf x with
  | .notANumber => 0
  | .infinite negative => if negative then least else greatest
  | .finite negative magnitude => max least (min greatest (magnitude.floor negative))

end ShadingMachine.Number
