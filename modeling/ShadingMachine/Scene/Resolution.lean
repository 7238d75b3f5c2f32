import ShadingMachine.Value.Triple

/-! A grid of points in rows, and the differences of values between neighbours. -/
namespace ShadingMachine

/-- One less than the number of points in a row and the number of rows. -/
structure Resolution where
  u : Nat
  v : Nat
deriving DecidableEq, Inhabited

inductive Direction where
  | alongU
  | alongV
deriving DecidableEq

namespace Resolution

def pointCount (r : Resolution) : Nat := (r.u + 1) * (r.v + 1)

/-- The number of steps along a direction. -/
def steps (r : Resolution) : Direction → Nat
  | .alongU => r.u
  | .alongV => r.v

/-- How far apart neighbours along a direction are in the list of points. -/
def stride (r : Resolution) : Direction → Nat
  | .alongU => 1
  | .alongV => r.u + 1

/-- The place of a point along a direction. -/
def coordinate (r : Resolution) (i : Nat) : Direction → Nat
  | .alongU => i % (r.u + 1)
  | .alongV => i / (r.u + 1)

/-- A point and its neighbour along a direction, the earlier one first: the next neighbour, and
for the last point the one before. -/
def samples? (r : Resolution) (d : Direction) (i : Nat) : Option (Nat × Nat) :=
  if r.steps d = 0 then none
  else if r.coordinate i d < r.steps d then some (i, i + r.stride d)
  else some (i - r.stride d, i)

theorem samples?_eq_none_iff (r : Resolution) (d : Direction) (i : Nat) :
    r.samples? d i = none ↔ r.steps d = 0 := by
  unfold samples?; split
  · simp_all
  · split <;> simp_all

variable {α : Type} [Scalar α]

/-- The slope of a field at a point, the grid being one long in each direction. -/
def difference (r : Resolution) (d : Direction) (field : Array α) (i : Nat) : α :=
  match r.samples? d i with
  | some (a, b) =>
    match field[a]?, field[b]? with
    | some x, some y => (y - x) * Scalar.fromNat (r.steps d)
    | _, _ => 0
  | none => 0

/-- The slope of one field against another: the sum of the quotients over the directions in
which the other is not level. -/
def quotient (r : Resolution) (field divisor : Array α) (i : Nat) : α :=
  let add (sum : α) (d : Direction) : α :=
    let slope := r.difference d divisor i
    if slope != 0 then sum + r.difference d field i * (1 / slope) else sum
  add (add 0 .alongU) .alongV

def tripleDifference (r : Resolution) (d : Direction) (field : Array (Triple α)) (i : Nat) :
    Triple α :=
  ⟨r.difference d (field.map (·.x)) i, r.difference d (field.map (·.y)) i,
    r.difference d (field.map (·.z)) i⟩

end Resolution

end ShadingMachine
