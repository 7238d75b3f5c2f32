import ShadingMachine.Number.Shortest

/-! How a float is written: its shortest digits, laid out with or without an exponent. -/
namespace ShadingMachine.Number

/-- The decisions of a float format. The point stands `position` digits after the first
digit's place, so that the value is `0.d₁d₂… * 10 ^ position`. -/
structure Layout where
  tie : Tie
  /-- Written after the digits of a whole number. -/
  wholeSuffix : String
  /-- The positions of the point that are written without an exponent. -/
  positional : Int → Bool

namespace Layout

/-- Every value in full, a whole number without a point. -/
def full : Layout := ⟨.up, "", fun _ => true⟩

/-- A whole number with `.0`, and an exponent for very large and very small values. This is the
format that the ryu printer documents for single precision: the shortest digits that read back as
the same float, with the point among them from `1e-6` to below `1e13`. -/
def compact : Layout := ⟨.even, ".0", fun p => decide (-6 < p ∧ p ≤ 13)⟩

def zeros (n : Nat) : String := String.ofList (List.replicate n '0')

/-- The digits with the point in its place. -/
def placePoint (l : Layout) (digits : List Char) (position : Int) : String :=
  if position ≤ 0 then "0." ++ zeros (-position).toNat ++ String.ofList digits
  else if digits.length ≤ position.toNat then
    String.ofList digits ++ zeros (position.toNat - digits.length) ++ l.wholeSuffix
  else
    String.ofList (digits.take position.toNat) ++ "." ++ String.ofList (digits.drop position.toNat)

/-- One digit before the point and the rest after it. -/
def withExponent (digits : List Char) (position : Int) : String :=
  let fraction := match digits.drop 1 with
    | [] => ""
    | rest => "." ++ String.ofList rest
  String.ofList (digits.take 1) ++ fraction ++ "e" ++ toString (position - 1)

def write (l : Layout) (x : Float32) : String :=
  let sign (negative : Bool) : String := if negative then "-" else ""
  match partsOf x with
  | .notANumber => "NaN"
  | .infinite negative => sign negative ++ "inf"
  | .finite negative b =>
    if b.mantissa = 0 then sign negative ++ "0" ++ l.wholeSuffix
    else
      let d := b.shortest l.tie
      let digits := Nat.toDigits 10 d.digits
      let position := digits.length + d.exponent
      sign negative ++
        if l.positional position then l.placePoint digits position
        else withExponent digits position

end Layout

end ShadingMachine.Number
