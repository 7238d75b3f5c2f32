import ShadingMachine.Number.Truncation

/-! The numbers that formulas are written over. Each formula is stated once for any scalar and
run with `Float32`, where every operation rounds and the order of operations matters. -/
namespace ShadingMachine

/-- Arithmetic, order and rounding to whole numbers. -/
class Scalar (α : Type) extends Add α, Sub α, Mul α, Div α, Neg α, LT α, LE α, BEq α,
    Inhabited α where
  ofNat : (n : Nat) → OfNat α n
  ltDecidable : DecidableLT α
  leDecidable : DecidableLE α
  /-- The whole number at or below, as a scalar. -/
  floor : α → α
  /-- Without the fraction; out of the range of a scalar's whole numbers, the nearest one. -/
  truncate : α → Int
  isFinite : α → Bool
  fromNat : Nat → α

attribute [reducible, instance] Scalar.ofNat Scalar.ltDecidable Scalar.leDecidable

namespace Scalar

instance : Scalar Float32 where
  ofNat _ := inferInstance
  ltDecidable := inferInstance
  leDecidable := inferInstance
  floor := Float32.floor
  truncate := Number.truncate
  isFinite := Float32.isFinite
  fromNat := Float32.ofNat

variable {α : Type} [Scalar α]

/-- The larger one; a value that compares with nothing gives way to the other. -/
def larger (x y : α) : α := if x < y then y else if x == x then x else y

/-- The smaller one; a value that compares with nothing gives way to the other. -/
def smaller (x y : α) : α := if y < x then y else if x == x then x else y

/-- Into the range from zero to one; a value that compares with nothing stays. -/
def toUnit (x : α) : α := if x < 0 then 0 else if 1 < x then 1 else x

/-- Whether it counts as true. -/
def holds (x : α) : Bool := x != 0

def ofBool (b : Bool) : α := if b then 1 else 0

/-- Without sign and fraction, a negative value counting as zero. -/
def toIndex (x : α) : Nat := (truncate x).toNat

end Scalar

end ShadingMachine
