import ShadingMachine.Value.Mat4

/-! Named coordinate systems, each with its matrix into the current one. -/
namespace ShadingMachine

abbrev Spaces (α : Type) := List (String × Mat4 α)

namespace Spaces

variable {α : Type}

def get? (s : Spaces α) (name : String) : Option (Mat4 α) := s.lookup name

/-- Gives a name a matrix, in place of the one that it had. -/
def insert (s : Spaces α) (name : String) (m : Mat4 α) : Spaces α := (name, m) :: s

@[simp] theorem get?_insert (s : Spaces α) (name other : String) (m : Mat4 α) :
    (s.insert name m).get? other = if other = name then some m else s.get? other := by
  unfold get? insert
  by_cases h : other = name
  · simp [h]
  · simp [List.lookup_cons, h, beq_false_of_ne h]

variable [Scalar α]

/-- The spaces that every scene has, all the same. -/
def standard : Spaces α :=
  ["current", "camera", "world", "object", "shader"].map fun name => (name, Mat4.identity)

/-- From one space to another: into the current one, and from there by the inverse. -/
def matrix? (s : Spaces α) (source target : String) : Option (Mat4 α) := do
  let m ← s.get? source
  let n ← (← s.get? target).inverse?
  return m * n

end Spaces

end ShadingMachine
