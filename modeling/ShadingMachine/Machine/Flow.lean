import ShadingMachine.Machine.Stack

/-! Masked control flow. A jump on the running or the current points is taken only if all points
agree, and so is one on a varying condition. -/
namespace ShadingMachine.Exec

variable {ε : Type} [Environment ε]

/-- Whether a condition makes a jump: a varying one if it is `want` at every running point, and
where no point is running, if `want` is false. -/
def agrees (condition : Value) (want : Bool) (mask : Mask) : Bool :=
  let holdsAt (k : Nat) : Bool := Scalar.holds (condition.getFloat k) == want
  if !condition.isVarying then holdsAt 0
  else if mask.ones.isEmpty then !want
  else mask.ones.all holdsAt

/-- Where to go if the states of the points say so. -/
def jumpIf (i : Instruction) (p : RunningStates → Bool) : Exec ε (Option Nat) := do
  let target ← ofExcept i.target
  return if p (Environment.states (← environment)) then some target else none

def jumpOn (i : Instruction) (want : Bool) : Exec ε (Option Nat) := do
  let target ← ofExcept i.target
  let condition ← popValue i
  return if agrees condition want (← machine).mask then some target else none

def leaveScope (i : Instruction) : Exec ε Unit := do
  match (Environment.states (← environment)).pop? with
  | some s => modifyStates fun _ => s
  | none => throw (.stateUnderflow i.name i.position)

def setCurrent (i : Instruction) : Exec ε Unit := do
  let condition ← popValue i
  modifyStates (·.setCurrent fun k => Scalar.holds (condition.getFloat k))

/-- Where execution goes on, if it does not with the next instruction. -/
def flow (i : Instruction) : Flow → Exec ε (Option Nat)
  | .enterScope => do modifyStates RunningStates.push; return none
  | .leaveScope => do leaveScope i; return none
  | .selectCurrent => do modifyStates RunningStates.select; return none
  | .invertScope => do modifyStates RunningStates.invert; return none
  | .clearCurrent => do modifyStates RunningStates.clearCurrent; return none
  | .setCurrent => do setCurrent i; return none
  | .jumpNoCurrent => jumpIf i (·.current.hasNone)
  | .jumpAllCurrent => jumpIf i (·.current.hasAll)
  | .jumpNoRunning => jumpIf i (·.running.hasNone)
  | .jumpAllRunning => jumpIf i (·.running.hasAll)
  | .jumpFalse => jumpOn i false
  | .jumpTrue => jumpOn i true
  | .jump => do return some (← ofExcept i.target)

end ShadingMachine.Exec
