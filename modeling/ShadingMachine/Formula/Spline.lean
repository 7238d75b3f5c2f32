import ShadingMachine.Value.Triple

/-! Curves through knots. A curve over `n` knots has `n - 3` pieces of equal length. It starts
at the second knot and ends at the last but one; the knots around a piece give its slopes. -/
namespace ShadingMachine.Formula

variable {α : Type} [Scalar α]

/-- The piece from `b` to `c`, with neighbours `a` and `d`, at `u` from zero to one. -/
def splinePiece (a b c d u : α) : α :=
  let c₃ := a * -(1 / 2) + b * (3 / 2) + c * -(3 / 2) + d * (1 / 2)
  let c₂ := a + b * -(5 / 2) + c * 2 + d * -(1 / 2)
  let c₁ := a * -(1 / 2) + c * (1 / 2)
  ((c₃ * u + c₂) * u + c₁) * u + b

/-- A parameter along the whole curve of `n` knots, counted in pieces. -/
def splineParameter (n : Nat) (t : α) : α := Scalar.toUnit t * Scalar.fromNat (n - 3)

/-- The piece in which a parameter lies; the end belongs to the last piece. -/
def splineSegment (n : Nat) (x : α) : Nat := min (Scalar.toIndex (Scalar.floor x)) (n - 4)

/-- The curve at `t` from zero to one. Fewer than four knots make no curve and give the second
knot, or the only one. -/
def spline (t : α) (knots : List α) : α :=
  let n := knots.length
  if n < 4 then (knots[1]?.or knots[0]?).getD 0
  else
    let x := splineParameter n t
    let k := splineSegment n x
    match knots.drop k with
    | a :: b :: c :: d :: _ => splinePiece a b c d (x - Scalar.fromNat k)
    | _ => 0

theorem splineSegment_add_four_le {n : Nat} (h : 4 ≤ n) (x : α) :
    splineSegment n x + 4 ≤ n := by
  unfold splineSegment; omega

def splineTriple (t : α) (knots : List (Triple α)) : Triple α :=
  ⟨spline t (knots.map (·.x)), spline t (knots.map (·.y)), spline t (knots.map (·.z))⟩

def splineColor (t : α) (knots : List (Color α)) : Color α :=
  ⟨spline t (knots.map (·.r)), spline t (knots.map (·.g)), spline t (knots.map (·.b))⟩

end ShadingMachine.Formula
