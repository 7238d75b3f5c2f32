import ShadingMachine.Proofs.Execution.Outcome
import ShadingMachine.Machine.Execution

/-! The two ends of a run. Before its code is run a machine is bound to the grid of the environment
and the states of the points are made to fit it; and what every step keeps, a run keeps, also one
that fails. -/
namespace ShadingMachine

namespace Session

variable {ε : Type} [Environment ε]

/-- The note that is made where a machine is run on another grid than it was bound to. -/
def resizeNote (old n : Nat) : String :=
  s!"grid size changed from {old} to {n} without initialise; resizing"

/-- Bound to the grid of the environment, if it was not. -/
def resized (s : Session ε) : Session ε :=
  let n := Environment.pointCount s.host.env
  let old := s.machine.gridSize
  if n ≠ old then
    ⟨s.machine.resizeGrid n, s.host.note .warn (resizeNote old n)⟩
  else s

/-- With all of `n` points running. -/
def reset (s : Session ε) (n : Nat) : Session ε :=
  let states := (Environment.states s.host.env).reset n
  { s with host := { s.host with env := Environment.setStates s.host.env states } }

/-- With states of the points for the grid. -/
def restated (s : Session ε) : Session ε :=
  let n := Environment.pointCount s.host.env
  if (Environment.states s.host.env).size ≠ n then s.reset n else s

/-- Ready to run its code. -/
def ready (s : Session ε) : Session ε :=
  let t := s.resized.restated
  { t with host := ((Environment.forgetLights : Serving ε Unit).run t.host).2 }

theorem resized_env (s : Session ε) : s.resized.host.env = s.host.env := by
  unfold resized
  dsimp only
  split <;> rfl

/-- Bound to a grid of points, a machine has the size of the grid. -/
theorem gridSize_resized {s : Session ε} (hpos : 0 < Environment.pointCount s.host.env) :
    s.resized.machine.gridSize = Environment.pointCount s.host.env := by
  unfold resized
  dsimp only
  split
  · rw [Machine.gridSize_resizeGrid]
    omega
  · rename_i h
    exact (Decidable.not_not.mp h).symm

theorem ready_machine (s : Session ε) : s.ready.machine = s.resized.machine := by
  unfold ready restated
  dsimp only
  split <;> rfl

/-- The operands are not touched. -/
theorem ready_stack (s : Session ε) : s.ready.machine.stack = s.machine.stack ∧
    s.ready.machine.pools = s.machine.pools ∧ s.ready.machine.config = s.machine.config := by
  rw [ready_machine]
  unfold resized
  dsimp only
  split <;> exact ⟨rfl, rfl, rfl⟩

end Session

namespace Exec

/-- The slots in use at the end of a segment are as many as before. -/
def checkPools {ε : Type} (before : Pools) : Exec ε Unit := do
  if let some e := poolImbalance? before (← machine).pools then throw e

variable {ε : Type} [Environment ε]

/-- Runs the code of a machine that is bound to a grid of `n` points. -/
def executeBound (n limit : Nat) : Exec ε Bool := do
  let finished ← attempt (run .code limit)
  if finished.toOption.isNone then resetStates n
  ofExcept finished

theorem execute_ready (limit : Nat) (s : Session ε) :
    execute limit s = executeBound (Environment.pointCount s.host.env) limit s.ready := by
  have hrestate (n : Nat) (u : Session ε) (hn : n = Environment.pointCount u.host.env) : (do
      if (Environment.states (← environment)).size ≠ n then resetStates n
      serve Environment.forgetLights
      executeBound n limit : Exec ε Bool) u = executeBound n limit { u.restated with
        host := ((Environment.forgetLights : Serving ε Unit).run u.restated.host).2 } := by
    subst hn
    have hreset : (do
        if (Environment.states (← environment)).size ≠ Environment.pointCount u.host.env then
          resetStates (Environment.pointCount u.host.env)
        serve Environment.forgetLights
        executeBound (Environment.pointCount u.host.env) limit : Exec ε Bool) u =
        (if (Environment.states u.host.env).size ≠ Environment.pointCount u.host.env then (do
          resetStates (Environment.pointCount u.host.env)
          serve Environment.forgetLights
          executeBound (Environment.pointCount u.host.env) limit)
        else (do
          serve Environment.forgetLights
          executeBound (Environment.pointCount u.host.env) limit) : Exec ε Bool) u := rfl
    rw [hreset]
    unfold Session.restated
    dsimp only
    split <;> rfl
  have hresize : execute limit s =
      (if Environment.pointCount s.host.env ≠ s.machine.gridSize then (do
          serve (note .warn
            (Session.resizeNote s.machine.gridSize (Environment.pointCount s.host.env)))
          modifyMachine (·.resizeGrid (Environment.pointCount s.host.env))
          if (Environment.states (← environment)).size ≠ Environment.pointCount s.host.env then
            resetStates (Environment.pointCount s.host.env)
          serve Environment.forgetLights
          executeBound (Environment.pointCount s.host.env) limit)
      else (do
        if (Environment.states (← environment)).size ≠ Environment.pointCount s.host.env then
          resetStates (Environment.pointCount s.host.env)
        serve Environment.forgetLights
        executeBound (Environment.pointCount s.host.env) limit) : Exec ε Bool) s := rfl
  rw [hresize]
  unfold Session.ready Session.resized
  dsimp only
  split
  · exact hrestate _ ⟨s.machine.resizeGrid _, s.host.note _ _⟩ rfl
  · exact hrestate _ s rfl

/-- An error of a run of the code resets the states of the points, for the grid that there was when
the run began. -/
theorem ends_execute {limit : Nat} {s : Session ε} {Q : Bool → Session ε → Prop}
    {E : ExecError → Session ε → Prop} :
    Ends (execute limit) s Q E ↔ Ends (run .code limit) s.ready Q fun e t =>
      E e (t.reset (Environment.pointCount s.host.env)) := by
  have hbound (n : Nat) : Ends (executeBound n limit) s.ready Q E ↔
      Ends (run .code limit) s.ready Q fun e t => E e (t.reset n) := by
    unfold executeBound
    simp only [ends_bind, ends_attempt]
    exact Iff.rfl
  rw [← hbound]
  unfold Ends
  rw [execute_ready]

/-- What the steps and the turns of a run keep. -/
structure Invariant (I : Session ε → Prop) : Prop where
  step {s} : I s → Ends step s (fun _ t => I t) fun _ t => I t
  start {s} (kind : SegmentKind) : I s → I { s with machine := s.machine.start kind }
  clear {s} : I s → I { s with machine := s.machine.clearStack }
  note {s} (level : Text.Level) (text : String) : I s → I { s with host := s.host.note level text }

namespace Invariant

variable {I : Session ε → Prop} (hI : Invariant I) {s : Session ε}
include hI

/-- By induction on the number of steps. -/
theorem steps (limit : Nat) (h : I s) : Ends (steps limit) s (fun _ t => I t) fun _ t => I t := by
  induction limit generalizing s with
  | zero => exact h
  | succ limit ih =>
    unfold Exec.steps
    rw [ends_bind]
    refine (hI.step h).imp (fun more t ht => ?_) fun _ _ ht => ht
    cases more with
    | true => exact ih ht
    | false => exact ht

theorem checkBalance (kind : SegmentKind) (before : Pools) (h : I s) :
    Ends (checkBalance kind before) s (fun _ t => I t) fun _ t => I t := by
  have hcheck {t : Session ε} (ht : I t) :
      Ends (checkPools before) t (fun _ t => I t) fun _ t => I t := by
    simp only [checkPools, ends_bind, ends_machine]
    split
    · exact ht
    · exact ht
  unfold Exec.checkBalance
  simp only [ends_bind, ends_machine]
  split
  · split
    · exact h
    · exact hcheck (hI.clear (hI.note _ _ h))
  · exact hcheck h

theorem run (kind : SegmentKind) (limit : Nat) (h : I s) :
    Ends (run kind limit) s (fun _ t => I t) fun _ t => I t := by
  unfold Exec.run
  simp only [ends_bind, ends_machine, ends_serve, ends_modifyMachine, ends_attempt]
  refine (hI.steps limit (hI.start kind (hI.note _ _ h))).imp (fun done t ht => ?_)
    fun _ _ ht => hI.clear ht
  cases done with
  | false => exact ht
  | true =>
    simp only [if_true, ends_bind]
    exact (hI.checkBalance kind _ ht).imp (fun _ _ hu => hu) fun _ _ hu => hI.clear hu

end Invariant

end Exec

end ShadingMachine
