import ShadingMachine.Mask.Bits

/-! Which points of the grid are running. `running` executes, `current` is what the last
condition selected, and `saved` keeps the running sets of the scopes around, innermost first.
`spare` holds sets that are done with, the latest first; a scope that is entered takes one of them
and writes over it. -/
namespace ShadingMachine

structure RunningStates where
  running : Mask
  current : Mask
  saved : List Mask
  spare : List Mask
deriving DecidableEq, Inhabited

namespace RunningStates

/-- All `n` points running and current, no scope entered. -/
def fresh (n : Nat) : RunningStates := ⟨.full n, .full n, [], []⟩

/-- All `n` points running and current, and every scope left. -/
def reset (s : RunningStates) (n : Nat) : RunningStates :=
  ⟨.full n, .full n, [], s.saved.reverse ++ s.spare⟩

def size (s : RunningStates) : Nat := s.running.size

def depth (s : RunningStates) : Nat := s.saved.length

@[simp] theorem size_fresh (n : Nat) : (fresh n).size = n := rfl
@[simp] theorem depth_fresh (n : Nat) : (fresh n).depth = 0 := rfl
@[simp] theorem size_reset (s : RunningStates) (n : Nat) : (s.reset n).size = n := rfl
@[simp] theorem depth_reset (s : RunningStates) (n : Nat) : (s.reset n).depth = 0 := rfl

/-- Enters a scope. -/
def push (s : RunningStates) : RunningStates :=
  { s with
    saved := (s.spare.headD default).copyFrom s.running :: s.saved
    spare := s.spare.tail }

/-- Leaves a scope: the set that was running when it was entered runs again. -/
def pop? (s : RunningStates) : Option RunningStates :=
  match s.saved with
  | m :: ms => some { s with running := m, saved := ms, spare := s.running :: s.spare }
  | [] => none

theorem pop?_of_saved {s : RunningStates} {m : Mask} {ms : List Mask} (h : s.saved = m :: ms) :
    s.pop? = some { s with running := m, saved := ms, spare := s.running :: s.spare } := by
  unfold pop?
  rw [h]

@[simp] theorem saved_push (s : RunningStates) : s.push.saved = s.running :: s.saved := rfl
@[simp] theorem pop?_push (s : RunningStates) :
    s.push.pop? = some { s with spare := s.running :: s.spare.tail } := rfl

/-- Runs the current points. -/
def select (s : RunningStates) : RunningStates :=
  { s with running := s.running.copyFrom s.current }

/-- Runs the points that ran when the scope was entered and do not run now. -/
def invert (s : RunningStates) : RunningStates :=
  match s.saved with
  | m :: _ => { s with running := s.running.complement.inter m }
  | [] => { s with running := s.running.complement }

def clearCurrent (s : RunningStates) : RunningStates :=
  { s with current := .empty s.running.size }

/-- Makes current the running points where the condition holds. -/
def setCurrent (s : RunningStates) (condition : Nat → Bool) : RunningStates :=
  let points := s.running.ones.filter condition
  { s with current := points.foldl Mask.insert (.empty s.running.size) }

@[simp] theorem size_push (s : RunningStates) : s.push.size = s.size := rfl
@[simp] theorem size_clearCurrent (s : RunningStates) : s.clearCurrent.size = s.size := rfl
@[simp] theorem size_setCurrent (s : RunningStates) (f : Nat → Bool) :
    (s.setCurrent f).size = s.size := rfl

end RunningStates

end ShadingMachine
