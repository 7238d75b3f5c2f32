import ShadingMachine.Text.Blank
import ShadingMachine.Value.Triple

/-! Light sources of a scene. -/
namespace ShadingMachine

inductive LightKind where
  /-- Shines everywhere alike, and only into the ambient sum. -/
  | ambient
  /-- Parallel light that travels in a direction. -/
  | distant (direction : Triple Float32)
  /-- Light from a place, falling off with the square of the distance. -/
  | point (origin : Triple Float32)
deriving Inhabited

structure Light where
  kind : LightKind
  color : Color Float32
  intensity : Float32
  categories : List String
deriving Inhabited

namespace Light

def isAmbient (l : Light) : Bool :=
  match l.kind with
  | .ambient => true
  | _ => false

/-- The pieces of a list separated by commas, without blanks around them and empty ones. -/
def categoryTerms (filter : String) : List (List Char) :=
  ((filter.toList.splitOn ',').map Text.trim).filter fun cs => !cs.isEmpty

/-- Whether the light passes a filter: it must be in each category named, and in none named
after a minus sign. -/
def matchesFilter (l : Light) (filter : String) : Bool :=
  (categoryTerms filter).all fun
    | '-' :: cs => !l.categories.contains (String.ofList cs)
    | cs => l.categories.contains (String.ofList cs)

@[simp] theorem matchesFilter_empty (l : Light) : l.matchesFilter "" = true := by
  simp [matchesFilter, categoryTerms]

/-- The vector from the light to a surface point. -/
def incident (l : Light) (p : Triple Float32) : Triple Float32 :=
  match l.kind with
  | .ambient => .splat 0
  | .distant direction => direction
  | .point origin => p - origin

/-- The color that arrives along an incident vector. -/
def radiance (l : Light) (v : Triple Float32) : Color Float32 :=
  let c := l.color.scale l.intensity
  match l.kind with
  | .point _ =>
    let d := v.dot v
    if 0 < d then c.scale (1 / d) else c
  | _ => c

end Light

end ShadingMachine
