import ShadingMachine.Value.Triple

/-! Formulas on directions and places. -/
namespace ShadingMachine.Formula

variable {α : Type} [Scalar α]

/-- The incident direction thrown back by a surface. -/
def reflect (i n : Triple α) : Triple α := i - n.scale (2 * i.dot n)

/-- The normal turned against the incident direction, as seen from a reference normal. -/
def faceForward (n i reference : Triple α) : Triple α := if 0 < i.dot reference then -n else n

/-- The incident direction bent by a surface, with the ratio of the densities; nothing passes
where all of it is thrown back. -/
def refract (i n : Triple Float32) (eta : Float32) : Triple Float32 :=
  let c := i.dot n
  let k := 1 - eta * eta * (1 - c * c)
  if k < 0 then .splat 0 else i.scale eta - n.scale (eta * c + k.sqrt)

/-- The place on the segment from `a` to `b` next to `q`. -/
def nearest (a b q : Triple α) : Triple α :=
  let d := b - a
  a + d.scale (Scalar.toUnit ((q - a).dot d / d.dot d))

/-- The distance of `q` from the segment between `a` and `b`. -/
def segmentDistance (a b q : Triple Float32) : Float32 :=
  let d := b - a
  if d.dot d == 0 then (q - a).length else (q - nearest a b q).length

end ShadingMachine.Formula
