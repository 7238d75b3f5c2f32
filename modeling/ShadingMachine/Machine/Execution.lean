import ShadingMachine.Machine.Step
import ShadingMachine.Scene.Grid

/-! Whole segments. A machine is bound to the grid of an environment and runs its code there; its
initial segment runs over a grid of one point, and the values of that point spread to all. A
run takes the number of instructions that it may execute; one that stops at this number is not
finished, and can be gone on with. -/
namespace ShadingMachine

/-- The name of a pool, by the types and details in order. -/
def poolName (k : ValueType × Detail) : String := s!"{k.2.keyword} {k.1.keyword}"

/-- The first pool with another number of slots in use than before. -/
def poolImbalance? (before after : Pools) : Option ExecError :=
  (poolKinds.find? fun k => (before.get k.1 k.2).inUse != (after.get k.1 k.2).inUse).map fun k =>
    .poolImbalance (poolName k) (before.get k.1 k.2).inUse (after.get k.1 k.2).inUse

namespace Exec

variable {ε : Type} [Environment ε]

/-- All `n` points run, in no scope. -/
def resetStates (n : Nat) : Exec ε Unit := modifyStates (·.reset n)

/-- Binds the machine to the grid of the environment. -/
def bind : Exec ε Unit := do
  let n := Environment.pointCount (← environment)
  modifyMachine (·.resizeGrid n)
  resetStates n

/-- Steps to the end of the segment, at most `limit` of them, and says whether they reach it. -/
def steps : (limit : Nat) → Exec ε Bool
  | 0 => return false
  | limit + 1 => do
    if ← step then steps limit else return true

/-- No operand may be left, and as many slots must be in use as before. -/
def checkBalance (kind : SegmentKind) (before : Pools) : Exec ε Unit := do
  let m ← machine
  if m.depth ≠ 0 then
    if m.config.strict then throw (.stackImbalance kind.name m.depth)
    serve (note .warn s!"{m.depth} entries left on the stack after the {kind.name} segment")
    modifyMachine Machine.clearStack
  if let some e := poolImbalance? before (← machine).pools then throw e

/-- Runs a segment from its start. An error leaves no operand. -/
def run (kind : SegmentKind) (limit : Nat) : Exec ε Bool := do
  let m ← machine
  serve (note .debug s!"executing {kind.name} segment over {m.gridSize} points")
  modifyMachine (·.start kind)
  let finished ← attempt do
    if ← steps limit then
      checkBalance kind m.pools
      return true
    return false
  if finished.toOption.isNone then modifyMachine Machine.clearStack
  ofExcept finished

/-- Runs the code over the grid of the environment. An error leaves all points of this grid
running, whatever the environment has done to it on the way. -/
def execute (limit : Nat) : Exec ε Bool := do
  let n := Environment.pointCount (← environment)
  let old := (← machine).gridSize
  if n ≠ old then
    serve (note .warn s!"grid size changed from {old} to {n} without initialise; resizing")
    modifyMachine (·.resizeGrid n)
  if (Environment.states (← environment)).size ≠ n then resetStates n
  serve Environment.forgetLights
  let finished ← attempt (run .code limit)
  if finished.toOption.isNone then resetStates n
  ofExcept finished

end Exec

namespace Machine

/-- The outcome of the initial segment, with the notes that are made of it. -/
def executeInit (m : Machine) (limit : Nat) (log : Text.Log) :
    Except ExecError Bool × Machine × Text.Log :=
  let alone := { m with gridSize := 1, mask := .full 1 }
  let after (s : Session Grid) : Machine :=
    { s.machine with
      gridSize := m.gridSize, mask := .full m.gridSize, locals := s.machine.locals.spreadFirst }
  match Exec.run .init limit ⟨alone, .fresh 0 0, log⟩ with
  | .ok finished s => (.ok finished, after s, s.host.log)
  | .error e s => (.error e, after s, s.host.log)

end Machine

namespace Exec

variable {ε : Type}

/-- Runs the initial segment, whatever the environment is. -/
def executeInit (limit : Nat) : Exec ε Bool := do
  let s ← get
  let (outcome, machine, log) := s.machine.executeInit limit s.host.log
  set { s with machine, host := { s.host with log } }
  ofExcept outcome

end Exec

end ShadingMachine
