import ShadingMachine.Machine.Execution
import ShadingMachine.Proofs.Execution.Argument
import ShadingMachine.Proofs.Execution.Entry
import ShadingMachine.Proofs.Execution.Instruction

/-! One step in its parts, and the machines that a program comes to. A machine is worked with by
calls, each in an environment of its own; the machines between the instructions of a run are
reached as well, also where an instruction has just failed. What a machine has at first and what
no call takes away holds of every machine that is reached. -/
namespace ShadingMachine

/-- An instruction is about to be executed: the place is that of the next one, and the mask is
that of the running points. -/
def Session.fetched {ε : Type} [Environment ε] (s : Session ε) (i : Instruction) : Session ε where
  machine := { s.machine with
    position := i.position + 1 + i.operands.length
    mask := (Environment.states s.host.env).running }
  host :=
    if s.machine.config.trace then
      s.host.note .trace (Exec.traceLine s.machine.segment i)
    else s.host

namespace Exec

variable {ε : Type} [Environment ε]

/-- Goes to the target of a jump, if there is one. -/
def proceed (kind : SegmentKind) (length : Nat) (target? : Option Nat) : Exec ε Bool := do
  if let some target := target? then
    if length < target then throw (.positionOutOfRange kind.name target length)
    modifyMachine fun m => { m with position := target }
  return (← machine).position < length

theorem step_eq (s : Session ε) :
    step s =
      match (s.machine.program.segment s.machine.segment).instruction? s.machine.segment
        s.machine.position with
      | none => .ok false s
      | some (.error e) => .error e s
      | some (.ok i) =>
        (do proceed s.machine.segment (s.machine.program.segment s.machine.segment).length
              (← dispatch i)) (s.fetched i) := by
  have hread {α : Type} (f : Machine → Exec ε α) : (machine >>= f) s = f s.machine s := rfl
  unfold step
  rw [hread]
  dsimp only
  cases (s.machine.program.segment s.machine.segment).instruction? s.machine.segment
    s.machine.position with
  | none => rfl
  | some found =>
    cases found with
    | error e => rfl
    | ok i =>
      cases ht : s.machine.config.trace with
      | true => simp only [Session.fetched, ht]; rfl
      | false => simp only [Session.fetched, ht]; rfl

/-- What a step does: there is no instruction, there is none to be read, or one is executed. -/
theorem ends_step {s : Session ε} {Q : Bool → Session ε → Prop} {E : ExecError → Session ε → Prop}
    (hend : Q false s)
    (hunread : ∀ e, (s.machine.program.segment s.machine.segment).instruction? s.machine.segment
      s.machine.position = some (.error e) → E e s)
    (hread : ∀ i, (s.machine.program.segment s.machine.segment).instruction? s.machine.segment
      s.machine.position = some (.ok i) →
      Ends (dispatch i) (s.fetched i) (fun target? t => Ends (proceed s.machine.segment
        (s.machine.program.segment s.machine.segment).length target?) t Q E) E) :
    Ends step s Q E := by
  have hs := step_eq s
  cases hi : (s.machine.program.segment s.machine.segment).instruction? s.machine.segment
    s.machine.position with
  | none =>
    rw [hi] at hs
    simpa only [Ends, hs] using hend
  | some found =>
    cases found with
    | error e =>
      rw [hi] at hs
      simpa only [Ends, hs] using hunread e hi
    | ok i =>
      rw [hi] at hs
      have hr := ends_bind.mpr (hread i hi)
      simpa only [Ends, hs] using hr

omit [Environment ε] in
theorem ends_proceed {kind : SegmentKind} {length : Nat} {target? : Option Nat} {t : Session ε}
    {Q : Bool → Session ε → Prop} {E : ExecError → Session ε → Prop} :
    Ends (proceed kind length target?) t Q E ↔
      match target? with
      | none => Q (decide (t.machine.position < length)) t
      | some target =>
        if length < target then E (.positionOutOfRange kind.name target length) t
        else Q (decide (target < length)) { t with
          machine := { t.machine with position := target } } := by
  cases target? with
  | none => exact Iff.rfl
  | some target =>
    unfold proceed
    dsimp only
    split <;> exact Iff.rfl

/-- A property of machines that no move of an instruction ends is kept by a step. -/
theorem Stable.ends_step {P : Multiset Slot → Machine → Prop}
    (hP : Stable fun held (s : Session ε) => P held s.machine)
    (hplace : ∀ m position mask, P 0 m → P 0 { m with position, mask }) {m : Machine} (h : P 0 m)
    (host : Host ε) :
    Ends step ⟨m, host⟩ (fun _ t => P 0 t.machine) fun _ t => True ∧ P 0 t.machine := by
  refine Exec.ends_step h (fun _ _ => ⟨trivial, h⟩) fun i _ => ?_
  have hd := keeps_dispatch hP (fun _ _ => trivial)
    (fun _ _ _ _ _ => trivial : Readable _ (fun _ => True) i) 0 (Session.fetched ⟨m, host⟩ i)
    (hplace m _ _ h)
  refine hd.imp (fun target? t ht => ?_) fun e t he => he
  rw [ends_proceed]
  split
  · exact ht
  · split
    · exact ⟨trivial, ht⟩
    · exact hplace t.machine _ _ ht

end Exec

/-- What can be asked of a machine from outside. -/
inductive Call where
  | initialise
  | setArgument (name : String) (arg : Argument) (space : Option String)
  | start (segment : SegmentKind)
  | step
  | execute (limit : Nat)
  | executeInit (limit : Nat)

/-- A call, and whether its run is finished. -/
def Call.run {ε : Type} [Environment ε] : Call → Exec ε Bool
  | initialise => do Exec.bind; return true
  | setArgument name arg space => do
    let m ← ofExcept ((← Exec.machine).setArgument (← Exec.environment) name arg space)
    Exec.modifyMachine fun _ => m
    return true
  | start segment => do Exec.modifyMachine (·.start segment); return true
  | step => do let _ ← Exec.step; return true
  | execute limit => Exec.execute limit
  | executeInit limit => Exec.executeInit limit

namespace Machine

/-- For the initial segment, which runs over a grid of one point. -/
def alone (m : Machine) : Machine := { m with gridSize := 1, mask := .full 1 }

/-- Back on the grid of `n` points after the initial segment. -/
def rejoin (m : Machine) (n : Nat) : Machine :=
  { m with gridSize := n, mask := .full n, locals := m.locals.spreadFirst }

/-- The machines that come from a fresh one by calls. A run that takes no instruction yet is
about to take its first, so what follows it are the machines inside the run. -/
inductive Reached (p : Program) (c : Config) : Machine → Prop
  | fresh : Reached p c (fresh p c)
  | call {m : Machine} {ε : Type} [Environment ε] (h : Host ε) (call : Call) :
    Reached p c m → Reached p c (call.run.after ⟨m, h⟩).machine
  | inCode {m : Machine} {ε : Type} [Environment ε] (h : Host ε) (k : Nat) :
    Reached p c m →
      Reached p c ((do let _ ← Exec.execute 0; Exec.steps k).after ⟨m, h⟩).machine
  | inInit {m : Machine} (log : Text.Log) (k : Nat) :
    Reached p c m →
      Reached p c ((do let _ ← Exec.run .init 0; Exec.steps k).after
        (⟨m.alone, .fresh 0 0, log⟩ : Session Grid)).machine

/-- No call takes the property away, and the errors of calls are those of `E`. -/
structure Closed (P : Machine → Prop) (E : ExecError → Prop) : Prop where
  resize {m} (n : Nat) : P m → P (m.resizeGrid n)
  argument {m m' name arg space} {ε : Type} [Environment ε] (env : ε) :
    m.setArgument env name arg space = .ok m' → P m → P m'
  argumentError {m e name arg space} {ε : Type} [Environment ε] (env : ε) :
    m.setArgument env name arg space = .error e → P m → E e
  start {m} (segment : SegmentKind) : P m → P (m.start segment)
  step {m} {ε : Type} [Environment ε] (h : Host ε) : P m →
    Exec.Ends Exec.step ⟨m, h⟩ (fun _ t => P t.machine) fun e t => E e ∧ P t.machine
  stackImbalance (segment : String) (depth : Nat) : E (.stackImbalance segment depth)
  poolImbalance (pool : String) (entry now : Nat) : E (.poolImbalance pool entry now)
  clear {m} : P m → P m.clearStack
  alone {m} : P m → P m.alone
  rejoin {m} (n : Nat) : P m → P (m.rejoin n)

end Machine

/-- The initial segment runs apart from the environment. -/
theorem Exec.executeInit_eq {ε : Type} (limit : Nat) (s : Session ε) :
    Exec.executeInit limit s =
      match Exec.run .init limit (⟨s.machine.alone, .fresh 0 0, s.host.log⟩ : Session Grid) with
      | .ok done t => .ok done ⟨t.machine.rejoin s.machine.gridSize, s.host.env, t.host.log⟩
      | .error e t => .error e ⟨t.machine.rejoin s.machine.gridSize, s.host.env, t.host.log⟩ := by
  have hset : Exec.executeInit limit s =
      (let r := s.machine.executeInit limit s.host.log
       (do set (⟨r.2.1, s.host.env, r.2.2⟩ : Session ε); ofExcept r.1 : Exec ε Bool) s) := rfl
  have hinit : s.machine.executeInit limit s.host.log =
      match Exec.run .init limit (⟨s.machine.alone, .fresh 0 0, s.host.log⟩ : Session Grid) with
      | .ok done t => (.ok done, t.machine.rejoin s.machine.gridSize, t.host.log)
      | .error e t => (.error e, t.machine.rejoin s.machine.gridSize, t.host.log) := rfl
  rw [hset, hinit]
  cases Exec.run .init limit (⟨s.machine.alone, .fresh 0 0, s.host.log⟩ : Session Grid) <;> rfl

namespace Exec

variable {ε : Type} {P : Machine → Prop} {E : ExecError → Prop}

/-- Whichever way it ends, the computation leaves a machine with the property, and its errors
are those of `E`. -/
def Leaves {α : Type} (P : Machine → Prop) (E : ExecError → Prop) (x : Exec ε α) : Prop :=
  ∀ s, P s.machine → Ends x s (fun _ t => P t.machine) fun e t => E e ∧ P t.machine

theorem Leaves.after {α : Type} {x : Exec ε α} (hx : Leaves P E x) {s : Session ε}
    (hs : P s.machine) : P (x.after s).machine :=
  (ends_iff_after (P := fun t => P t.machine)).mp ((hx s hs).imp (fun _ _ h => h) fun _ _ h => h.2)

theorem Leaves.bind {α β : Type} {x : Exec ε α} {f : α → Exec ε β} (hx : Leaves P E x)
    (hf : ∀ a, Leaves P E (f a)) : Leaves P E (x >>= f) := by
  intro s hs
  rw [ends_bind]
  exact (hx s hs).imp (fun a t ht => hf a t ht) fun _ _ he => he

/-- An error that is caught is thrown again, after more work. -/
theorem Leaves.attempt_bind {α β : Type} {x : Exec ε α} {f : Except ExecError α → Exec ε β}
    (hx : Leaves P E x) (hok : ∀ a, Leaves P E (f (.ok a)))
    (herror : ∀ e, E e → Leaves P E (f (.error e))) : Leaves P E (attempt x >>= f) := by
  intro s hs
  simp only [ends_bind, ends_attempt]
  exact (hx s hs).imp (fun a t ht => hok a t ht) fun e t he => herror e he.1 t he.2

theorem leaves_pure {α : Type} (a : α) : Leaves P E (pure a : Exec ε α) := fun _ hs => hs

theorem leaves_throw {α : Type} {e : ExecError} (he : E e) : Leaves P E (throw e : Exec ε α) :=
  fun _ hs => ⟨he, hs⟩

theorem leaves_machine : Leaves P E (machine : Exec ε Machine) := fun _ hs => hs

theorem leaves_environment : Leaves P E (environment : Exec ε ε) := fun _ hs => hs

theorem leaves_serve {α : Type} (x : Serving ε α) : Leaves P E (serve x) := fun _ hs => hs

theorem leaves_modifyMachine {f : Machine → Machine} (hf : ∀ m, P m → P (f m)) :
    Leaves P E (modifyMachine f : Exec ε Unit) := fun _ hs => hf _ hs

theorem leaves_checkBalance (hP : Machine.Closed P E) (kind : SegmentKind) (before : Pools) :
    Leaves P E (checkBalance kind before : Exec ε Unit) := by
  have hcheck : Leaves P E (checkPools before : Exec ε Unit) := by
    refine leaves_machine.bind fun m => ?_
    split
    · rename_i e he
      obtain ⟨k, -, hk⟩ := Option.map_eq_some_iff.mp he
      exact leaves_throw (hk ▸ hP.poolImbalance _ _ _)
    · exact leaves_pure _
  have hclear : Leaves P E (modifyMachine Machine.clearStack : Exec ε Unit) :=
    leaves_modifyMachine fun _ hm => hP.clear hm
  unfold checkBalance
  refine leaves_machine.bind fun m => ?_
  dsimp only
  split
  · split
    · exact (leaves_throw (hP.stackImbalance _ _)).bind fun _ => (leaves_serve _).bind fun _ =>
        hclear.bind fun _ => hcheck
    · exact (leaves_serve _).bind fun _ => hclear.bind fun _ => hcheck
  · exact hcheck

variable [Environment ε]

theorem leaves_resetStates (n : Nat) : Leaves P E (resetStates n : Exec ε Unit) := fun _ hs => hs

variable (hP : Machine.Closed P E)
include hP

theorem leaves_bind : Leaves P E (Exec.bind : Exec ε Unit) :=
  leaves_environment.bind fun _ => (leaves_modifyMachine fun _ hm => hP.resize _ hm).bind fun _ =>
    leaves_resetStates _

theorem leaves_steps (limit : Nat) : Leaves P E (steps limit : Exec ε Bool) := by
  induction limit with
  | zero => exact leaves_pure _
  | succ limit ih =>
    refine Leaves.bind (fun s hs => hP.step s.host hs) fun more => ?_
    cases more with
    | true => exact ih
    | false => exact leaves_pure _

theorem leaves_run (kind : SegmentKind) (limit : Nat) : Leaves P E (run kind limit : Exec ε Bool) := by
  have hclear : Leaves P E (modifyMachine Machine.clearStack : Exec ε Unit) :=
    leaves_modifyMachine fun _ hm => hP.clear hm
  unfold run
  refine leaves_machine.bind fun m => (leaves_serve _).bind fun _ => ?_
  refine (leaves_modifyMachine fun _ hm => hP.start kind hm).bind fun _ => ?_
  refine Leaves.attempt_bind ?_ (fun done => leaves_pure done) fun e he => ?_
  · refine (leaves_steps hP limit).bind fun done => ?_
    cases done with
    | true => exact (leaves_checkBalance hP kind m.pools).bind fun _ => leaves_pure _
    | false => exact leaves_pure _
  · exact hclear.bind fun _ => leaves_throw he

theorem leaves_execute (limit : Nat) : Leaves P E (execute limit : Exec ε Bool) := by
  intro s hs
  have hready : P s.ready.machine := by
    rw [s.ready_machine]
    unfold Session.resized
    dsimp only
    split
    · exact hP.resize _ hs
    · exact hs
  rw [ends_execute]
  exact leaves_run hP .code limit s.ready hready

omit [Environment ε] in
theorem leaves_executeInit (limit : Nat) : Leaves P E (executeInit limit : Exec ε Bool) := by
  intro s hs
  have hrun := leaves_run hP .init limit (⟨s.machine.alone, .fresh 0 0, s.host.log⟩ : Session Grid)
    (hP.alone hs)
  unfold Ends at hrun ⊢
  rw [executeInit_eq]
  cases hr : run .init limit (⟨s.machine.alone, .fresh 0 0, s.host.log⟩ : Session Grid) with
  | ok done t =>
    rw [hr] at hrun
    exact hP.rejoin _ hrun
  | error e t =>
    rw [hr] at hrun
    exact ⟨hrun.1, hP.rejoin _ hrun.2⟩

theorem leaves_call (call : Call) : Leaves P E (call.run : Exec ε Bool) := by
  cases call with
  | initialise => exact (leaves_bind hP).bind fun _ => leaves_pure _
  | setArgument name arg space =>
    intro s hs
    simp only [Call.run, ends_bind, ends_machine, ends_environment, ends_ofExcept]
    exact ⟨fun m hm => hP.argument _ hm hs, fun e he => ⟨hP.argumentError _ he hs, hs⟩⟩
  | start segment =>
    exact (leaves_modifyMachine fun _ hm => hP.start segment hm).bind fun _ => leaves_pure _
  | step => exact Leaves.bind (fun s hs => hP.step s.host hs) fun _ => leaves_pure _
  | execute limit => exact leaves_execute hP limit
  | executeInit limit => exact leaves_executeInit hP limit

end Exec

namespace Machine

theorem Reached.of_closed {P : Machine → Prop} {E : ExecError → Prop} {p : Program} {c : Config}
    {m : Machine} (hP : Closed P E) (hfresh : P (.fresh p c)) (hm : Reached p c m) : P m := by
  induction hm with
  | fresh => exact hfresh
  | call h call _ ih => exact (Exec.leaves_call hP call).after ih
  | inCode h k _ ih =>
    exact ((Exec.leaves_execute hP 0).bind fun _ => Exec.leaves_steps hP k).after ih
  | inInit log k _ ih =>
    exact ((Exec.leaves_run hP .init 0).bind fun _ => Exec.leaves_steps hP k).after (hP.alone ih)

/-- No move of an instruction changes the program. -/
theorem stable_program {ε : Type} (p : Program) (c : Config) :
    Exec.Stable fun _ (s : Session ε) => s.machine.program = p ∧ s.machine.config = c where
  pop _ h := h
  push h := h
  release h := h
  allocate _ _ h := h
  store _ h := h
  host _ h := h
  write _ _ h := h
  writeElement _ _ _ h := h
  scatter _ h := h

theorem closed_program (p : Program) (c : Config) :
    Closed (fun m => m.program = p ∧ m.config = c) fun _ => True where
  resize _ h := h
  argument _ hm h := by
    obtain ⟨k, l, rfl, -⟩ := setArgument_cases hm
    exact h
  argumentError _ _ _ := trivial
  start _ h := h
  step host h := (stable_program p c).ends_step (P := fun _ m => m.program = p ∧ m.config = c)
    (fun _ _ _ h => h) h host
  stackImbalance _ _ := trivial
  poolImbalance _ _ _ := trivial
  clear h := h
  alone h := h
  rejoin _ h := h

theorem Reached.program {p : Program} {c : Config} {m : Machine} (hm : Reached p c m) :
    m.program = p := (hm.of_closed (closed_program p c) ⟨rfl, rfl⟩).1

theorem Reached.config {p : Program} {c : Config} {m : Machine} (hm : Reached p c m) :
    m.config = c := (hm.of_closed (closed_program p c) ⟨rfl, rfl⟩).2

end Machine

end ShadingMachine
