import ShadingMachine.Machine.Environment
import ShadingMachine.Scene.GraphicsState

/-! An environment that holds a graphics state and answers nothing else. -/
namespace ShadingMachine

structure Bare where
  uSteps : Nat
  vSteps : Nat
  graphics : GraphicsState
  /-- Variables that are not there. -/
  missing : List GraphicsVariable
  states : RunningStates

namespace Bare

def fresh (u v : Nat) (missing : List GraphicsVariable) : Bare :=
  ⟨u, v, .fresh ((u + 1) * (v + 1)), missing, .fresh ((u + 1) * (v + 1))⟩

/-- Each space leads only to itself. -/
def spaceMatrix? (source target : String) : Option (Mat4 Float32) :=
  if source = target then some .identity else none

instance : Environment Bare where
  uResolution b := b.uSteps
  vResolution b := b.vSteps
  graphics? b x := if b.missing.contains x then none else some (b.graphics.get x)
  setVariable b x v := { b with graphics := b.graphics.set x v }
  states b := b.states
  setStates b states := { b with states }
  spaceMatrix? _ := spaceMatrix?

end Bare

end ShadingMachine
