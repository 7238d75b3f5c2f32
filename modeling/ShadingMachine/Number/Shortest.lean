/-! The fewest decimal digits that read back as the same float. -/
namespace ShadingMachine.Number

/-- Which of two equally near decimal numbers is taken. -/
inductive Tie where
  | up
  | even
deriving DecidableEq

/-- The magnitude of a finite float: `mantissa * 2 ^ exponent`; `narrow` when the float below
is nearer than the one above. -/
structure Binary where
  mantissa : Nat
  exponent : Int
  narrow : Bool

/-- A float is not a number, infinite or a magnitude, the last two with a sign. -/
inductive Parts where
  | notANumber
  | infinite (negative : Bool)
  | finite (negative : Bool) (magnitude : Binary)

def partsOf (x : Float32) : Parts :=
  let bits := x.toBits.toNat
  let negative := decide (0x80000000 ≤ bits)
  let exponent := bits / 0x800000 % 0x100
  let fraction := bits % 0x800000
  if exponent = 255 then
    if fraction = 0 then .infinite negative else .notANumber
  else if exponent = 0 then .finite negative ⟨fraction, -149, false⟩
  else .finite negative
    ⟨0x800000 + fraction, Int.ofNat exponent - 150, decide (fraction = 0 ∧ 1 < exponent)⟩

/-- A decimal number `digits * 10 ^ exponent`. -/
structure Decimal where
  digits : Nat
  exponent : Int
deriving DecidableEq, Inhabited

/-- The point of the grid of multiples of `10 ^ k` that is nearest to the float, among those
that read back as the float. The interval of reals that do reaches half way to the next float
on each side and holds its ends when the mantissa is even. -/
def Binary.onGrid? (b : Binary) (tie : Tie) (k : Int) : Option Decimal :=
  let e := b.exponent - 2
  let scale := (1 <<< e.toNat) * Nat.pow 10 (-k).toNat
  let unit := (1 <<< (-e).toNat) * Nat.pow 10 k.toNat
  let value := 4 * b.mantissa * scale
  let low := (4 * b.mantissa - if b.narrow then 1 else 2) * scale
  let high := (4 * b.mantissa + 2) * scale
  let reads (c : Nat) : Bool :=
    if b.mantissa % 2 = 0 then decide (low ≤ c * unit ∧ c * unit ≤ high)
    else decide (low < c * unit ∧ c * unit < high)
  let c := value / unit
  let below := 0 < c && reads c
  let above := reads (c + 1)
  let takesAbove :=
    let twice := 2 * (value % unit)
    if twice = unit then tie = .up || c % 2 = 1 else decide (unit < twice)
  if below && above then some ⟨if takesAbove then c + 1 else c, k⟩
  else if below then some ⟨c, k⟩
  else if above then some ⟨c + 1, k⟩
  else none

/-- Tries the grids from coarse to fine; the finest holds every float. -/
def Binary.shortest (b : Binary) (tie : Tie) : Decimal :=
  ((List.range 200).findSome? fun i => b.onGrid? tie (40 - Int.ofNat i)).getD ⟨0, 0⟩

end ShadingMachine.Number
