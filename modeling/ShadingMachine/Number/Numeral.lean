/-! Decimal numbers as they are written in program texts and on the command line. -/
namespace ShadingMachine.Number

/-- A written number: `digits * 10 ^ exponent` with a sign. -/
structure Numeral where
  negative : Bool
  digits : Nat
  exponent : Int
deriving DecidableEq, Inhabited

def digitValue (c : Char) : Nat := c.toNat - 48

/-- The number that a list of decimal digits writes. -/
def naturalOf (cs : List Char) : Nat := cs.foldl (fun n c => 10 * n + digitValue c) 0

@[simp] theorem naturalOf_nil : naturalOf [] = 0 := rfl

/-- A sign at the front, if there is one, and the rest. -/
def splitSign : List Char → Bool × List Char
  | '-' :: cs => (true, cs)
  | '+' :: cs => (false, cs)
  | cs => (false, cs)

/-- Decimal digits, at least one, and nothing else; a plus sign may stand in front. -/
def natural? (cs : List Char) : Option Nat :=
  let digits := match cs with
    | '+' :: rest => rest
    | _ => cs
  if digits.isEmpty || !digits.all Char.isDigit then none else some (naturalOf digits)

/-- A natural number below a bound. -/
def naturalBelow? (bound : Nat) (cs : List Char) : Option Nat :=
  (natural? cs).filter (· < bound)

/-- The exponent at the end of a number: none, or `e` with an optional sign and digits. -/
def exponentOf? : List Char → Option Int
  | [] => some 0
  | e :: cs =>
    let (negative, digits) := splitSign cs
    if (e == 'e' || e == 'E') && !digits.isEmpty && digits.all Char.isDigit then
      some (if negative then -(naturalOf digits : Int) else naturalOf digits)
    else none

/-- Digits with an optional point, at least one digit in all. -/
def numeral? (cs : List Char) : Option Numeral :=
  let (negative, cs) := splitSign cs
  let whole := cs.takeWhile Char.isDigit
  let rest := cs.dropWhile Char.isDigit
  let (fraction, rest) := match rest with
    | '.' :: rest => (rest.takeWhile Char.isDigit, rest.dropWhile Char.isDigit)
    | _ => ([], rest)
  if whole.isEmpty && fraction.isEmpty then none
  else (exponentOf? rest).map fun e =>
    ⟨negative, naturalOf (whole ++ fraction), e - fraction.length⟩

namespace Numeral

/-- One more than the decimal exponent of the first digit. -/
def magnitude (n : Numeral) : Int := (Nat.toDigits 10 n.digits).length + n.exponent

/-- The nearest float, of two the even one. -/
def toFloat32 (n : Numeral) : Float32 :=
  let size : Float32 :=
    if n.digits = 0 ∨ n.magnitude < -60 then 0
    else if 60 < n.magnitude then Float32.ofBits 0x7F800000
    else Float32.ofScientific n.digits (decide (n.exponent < 0)) n.exponent.natAbs
  if n.negative then -size else size

/-- The nearest double-precision float, of two the even one. -/
def toFloat (n : Numeral) : Float :=
  let size : Float :=
    if n.digits = 0 ∨ n.magnitude < -400 then 0
    else if 400 < n.magnitude then Float.ofBits 0x7FF0000000000000
    else Float.ofScientific n.digits (decide (n.exponent < 0)) n.exponent.natAbs
  if n.negative then -size else size

end Numeral

/-- The natural number that a double-precision float is, if it is one; a zero of either sign
is zero. -/
def wholeOf? (x : Float) : Option Nat :=
  let bits := x.toBits.toNat
  let exponent := bits / 0x10000000000000 % 0x800
  let fraction := bits % 0x10000000000000
  let mantissa := if exponent = 0 then fraction else 0x10000000000000 + fraction
  let shift : Int := if exponent = 0 then -1074 else Int.ofNat exponent - 1075
  if exponent = 2047 then none
  else if mantissa = 0 then some 0
  else if 0x8000000000000000 ≤ bits then none
  else if 0 ≤ shift then some (mantissa <<< shift.toNat)
  else
    let divisor := 1 <<< (-shift).toNat
    if mantissa % divisor = 0 then some (mantissa / divisor) else none

def lowerCase (cs : List Char) : List Char := cs.map Char.toLower

/-- A float as it may be given outside program texts, where the words for infinity and for
no number are also read. -/
def float32? (cs : List Char) : Option Float32 :=
  let (negative, rest) := splitSign cs
  let word := lowerCase rest
  if word = "inf".toList ∨ word = "infinity".toList then
    some (Float32.ofBits (if negative then 0xFF800000 else 0x7F800000))
  else if word = "nan".toList then some (Float32.ofBits 0x7FC00000)
  else (numeral? cs).map Numeral.toFloat32

end ShadingMachine.Number
