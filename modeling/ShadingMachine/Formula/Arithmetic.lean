import ShadingMachine.Number.Scalar

/-! Formulas on single numbers. -/
namespace ShadingMachine.Formula

variable {α : Type} [Scalar α]

def sign (x : α) : α := if 0 < x then 1 else if x < 0 then -1 else 0

/-- The remainder that has the sign of the divisor; there is none on division by zero. -/
def mod (a b : α) : α := if b == 0 then 0 else a - b * Scalar.floor (a / b)

def clamp (x low high : α) : α := Scalar.smaller (Scalar.larger x low) high

/-- Zero below the edge and one from there on. -/
def step (edge x : α) : α := if x < edge then 0 else 1

/-- From zero to one between two bounds, level at both. -/
def smoothStep (low high x : α) : α :=
  if x < low then 0
  else if high ≤ x then 1
  else
    let t := (x - low) / (high - low)
    t * t * (3 - 2 * t)

/-- The blend of two numbers: the first where `t` is zero and the second where it is one. -/
def mix (a b t : α) : α := a * (1 - t) + b * t

/-- The ratio of a circle to its diameter. -/
def pi : Float32 := Float32.ofBits 0x40490FDB

def radians (x : Float32) : Float32 := x * pi / 180

def degrees (x : Float32) : Float32 := x * 180 / pi

def logBase (x base : Float32) : Float32 := x.log / base.log

end ShadingMachine.Formula
