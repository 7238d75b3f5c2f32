import ShadingMachine.Machine.Environment
import ShadingMachine.Machine.Local
import ShadingMachine.Machine.Pool
import ShadingMachine.Pattern.Engine

/-! The state of a machine, and computations on a machine in its environment. A computation
that stops with an error leaves the state as it was when it stopped. -/
namespace ShadingMachine

structure Config where
  /-- Whether values left on the stack at the end of a segment are an error. -/
  strict : Bool
  /-- Whether every instruction is noted. -/
  trace : Bool
  /-- What reads the patterns that strings are matched against. -/
  [patterns : Pattern.Engine]

def Config.standard [Pattern.Engine] : Config := ⟨true, false⟩

structure Machine where
  program : Program
  config : Config
  locals : Locals
  /-- The operands, the top one first. -/
  stack : List Slot
  pools : Pools
  gridSize : Nat
  segment : SegmentKind
  /-- The place of the next instruction in the segment. -/
  position : Nat
  /-- The points that run the current instruction. -/
  mask : Mask

namespace Machine

/-- For a grid of one point. -/
def fresh (program : Program) (config : Config) : Machine where
  program := program
  config := config
  locals := .ofDeclarations program.locals
  stack := []
  pools := .empty
  gridSize := 1
  segment := .code
  position := 0
  mask := .full 1

def depth (m : Machine) : Nat := m.stack.length

/-- To the start of a segment. -/
def start (m : Machine) (segment : SegmentKind) : Machine := { m with segment, position := 0 }

/-- Makes room for a grid of `n` points, or of one if there are none. -/
def resizeGrid (m : Machine) (n : Nat) : Machine :=
  { m with gridSize := max n 1, locals := m.locals.sizeTo (max n 1), mask := .full (max n 1) }

/-- Gives every operand back, the lowest first. -/
def clearStack (m : Machine) : Machine :=
  { m with stack := [], pools := m.pools.releaseAll m.stack.reverse }

@[simp] theorem depth_fresh (p : Program) (c : Config) : (fresh p c).depth = 0 := rfl
@[simp] theorem depth_clearStack (m : Machine) : m.clearStack.depth = 0 := rfl
@[simp] theorem gridSize_resizeGrid (m : Machine) (n : Nat) :
    (m.resizeGrid n).gridSize = max n 1 := rfl

/-- The scalar local of that name. -/
def local? (m : Machine) (name : String) : Option Variable := do
  let k ← m.program.localIndex? name
  (m.locals.scalar? k).toOption

/-- An element of the array of that name. -/
def element? (m : Machine) (name : String) (index : Nat) : Option Variable := do
  let k ← m.program.localIndex? name
  (← (m.locals.array? k).toOption).elements[index]?

end Machine

/-- A machine at work in an environment. -/
structure Session (ε : Type) where
  machine : Machine
  host : Host ε

abbrev Exec (ε : Type) := EStateM ExecError (Session ε)

namespace Exec

variable {ε α : Type}

def machine : Exec ε Machine := return (← get).machine

def environment : Exec ε ε := return (← get).host.env

def modifyMachine (f : Machine → Machine) : Exec ε Unit :=
  modify fun s => { s with machine := f s.machine }

/-- Asks the environment. -/
def serve (x : Serving ε α) : Exec ε α :=
  modifyGet fun s => ((x.run s.host).1, { s with host := (x.run s.host).2 })

def modifyEnvironment (f : ε → ε) : Exec ε Unit :=
  modify fun s => { s with host := { s.host with env := f s.host.env } }

def modifyStates [Environment ε] (f : RunningStates → RunningStates) : Exec ε Unit :=
  modifyEnvironment fun e => Environment.setStates e (f (Environment.states e))

/-- The outcome of a computation, as a result. -/
def attempt (x : Exec ε α) : Exec ε (Except ExecError α) := fun s =>
  match x s with
  | .ok a s => .ok (.ok a) s
  | .error e s => .ok (.error e) s

end Exec

end ShadingMachine
