import ShadingMachine.Proofs.Execution.Entry
import ShadingMachine.Proofs.Frame.Instruction
import ShadingMachine.Proofs.Grid.Refinement
import ShadingMachine.Proofs.Mask.Scopes
import ShadingMachine.Proofs.Storage.Locals

/-! What an instruction leaves as it is on a grid of `n` points: the size of the grid, the
declarations of the locals, and that all masks are for that grid. Only control flow changes the
states of the points, and it does so by the operations on scopes. A run starts in such a state. -/
namespace ShadingMachine

/-- The machine is on a grid of `n` points, its locals are declared on one of `b`, and the masks are
for the grid. -/
structure Session.Regular (n b : Nat) (s : Session Grid) : Prop where
  gridSize : s.machine.gridSize = n
  declared : s.machine.Declared b
  states : s.host.env.states.WellKept n

namespace Exec

section States

variable {P : RunningStates → Prop}

theorem quiet_states (P : RunningStates → Prop) : Quiet fun s => P s.host.env.states where
  machine h _ _ := h
  host {s h} hs _ hstates := by
    show P h.env.states
    rw [hstates]
    exact hs

theorem permits_states (P : RunningStates → Prop) {i : Instruction} (hi : ∀ f, i.code ≠ .flow f) :
    Permits (fun s => P s.host.env.states) i where
  assign source _ r _ := by
    refine (preserves_readVariable r).bind fun v => preserves_machine.bind fun m => ?_
    split
    · cases r with
      | declared k => exact fun _ hs => hs
      | graphics x => exact fun _ hs => hs
    · exact preserves_warn (quiet_states P) i _
  storeElement r source index _ := by
    refine (preserves_readArray r).bind fun found => preserves_machine.bind fun m => ?_
    have hwrite (a : VariableArray) :
        Preserves (fun s => P s.host.env.states) (writeArray found.1 a) := fun _ hs => hs
    have hwarn (text : String) := preserves_warn (quiet_states P) i text
    split
    · refine (preserves_ofExcept _).bind fun k => ?_
      split
      · split
        · exact hwrite _
        · exact hwarn _
      · exact preserves_pure _
    split
    · exact hwarn _
    split
    · exact hwarn _
    · exact (hwrite _).bind fun _ => preserves_ofExcept _
  setLight _ _ _ _ _ _ hs := hs
  setStates f _ hf := absurd hf (hi f)

variable (hP : ∀ (o : RunningStates.Operation) r, P r → P (o.apply r))
include hP

theorem preserves_leaveScope_states (i : Instruction) :
    Preserves (fun s => P s.host.env.states) (leaveScope i : Exec Grid Unit) := by
  intro s hs
  have hleft : P (s.host.env.states.pop?.getD s.host.env.states) := hP .pop _ hs
  unfold leaveScope
  rw [ends_bind, ends_environment, Grid.environment_states]
  cases hr : s.host.env.states.pop? with
  | none => exact hs
  | some r =>
    rw [hr] at hleft
    exact hleft

theorem preserves_flow_states (i : Instruction) (f : Flow) :
    Preserves (fun s => P s.host.env.states) (flow i f : Exec Grid (Option Nat)) := by
  have hmodify (o : RunningStates.Operation) : Preserves (fun s => P s.host.env.states) (do
      modifyStates (o.apply ·); return (none : Option Nat) : Exec Grid (Option Nat)) :=
    fun s hs => hP o _ hs
  have hpop := preserves_popValue (quiet_states P) i
  unfold flow
  cases f with
  | enterScope => exact hmodify .push
  | selectCurrent => exact hmodify .select
  | invertScope => exact hmodify .invert
  | clearCurrent => exact hmodify .clearCurrent
  | leaveScope => exact (preserves_leaveScope_states hP i).bind fun _ => preserves_pure _
  | setCurrent =>
    exact Preserves.bind (hpop.bind fun v s hs => hP (.setCurrent _) _ hs) fun _ => preserves_pure _
  | jumpNoCurrent | jumpAllCurrent | jumpNoRunning | jumpAllRunning => exact preserves_jumpIf i _
  | jumpFalse | jumpTrue =>
    exact (preserves_ofExcept _).bind fun _ => hpop.bind fun _ => preserves_machine.bind fun _ =>
      preserves_pure _
  | jump => exact (preserves_ofExcept _).bind fun _ => preserves_pure _

/-- What the operations on scopes keep of the states, every instruction keeps. -/
theorem preserves_dispatch_states (i : Instruction) :
    Preserves (fun s => P s.host.env.states) (dispatch i : Exec Grid (Option Nat)) := by
  by_cases hi : ∃ f, i.code = .flow f
  · obtain ⟨f, hf⟩ := hi
    have hdispatch : (dispatch i : Exec Grid (Option Nat)) = flow i f := by
      unfold dispatch
      rw [hf]
      rfl
    rw [hdispatch]
    exact preserves_flow_states hP i f
  · exact preserves_dispatch (quiet_states P) i (permits_states P fun f hf => hi ⟨f, hf⟩)

end States

theorem stable_gridSize {ε : Type} (n : Nat) :
    Stable fun _ (s : Session ε) => s.machine.gridSize = n where
  pop _ h := h
  push h := h
  release h := h
  allocate _ _ h := h
  store _ h := h
  host _ h := h
  write _ _ h := h
  writeElement _ _ _ h := h
  scatter _ h := h

theorem regular_dispatch {n b : Nat} {s : Session Grid} (h : s.Regular n b) (i : Instruction) :
    Ends (dispatch i) s (fun _ t => t.Regular n b) fun _ t => t.Regular n b := by
  have hkeeps {I : Multiset Slot → Session Grid → Prop} (hI : Stable I) :
      Keeps I (fun _ => True) (dispatch i) 0 fun _ => 0 :=
    keeps_dispatch hI (fun _ _ => trivial) (fun _ _ _ _ _ => trivial : Readable _ (fun _ => True) i)
  have hsize := hkeeps (stable_gridSize n) 0 s h.gridSize
  have hdeclared := hkeeps (Machine.stable_declared b) 0 s h.declared
  have hstates := preserves_dispatch_states (P := (·.WellKept n)) (fun o _ hr => hr.apply o) i s
    h.states
  exact (ends_and.mp ⟨hsize, ends_and.mp ⟨hdeclared, hstates⟩⟩).imp
    (fun _ t ht => ⟨ht.1, ht.2.1, ht.2.2⟩) fun _ t ht => ⟨ht.1.2, ht.2.1.2, ht.2.2⟩

end Exec

namespace Session

variable {n b : Nat} {s : Session Grid}

theorem fetched_env {ε : Type} [Environment ε] (s : Session ε) (i : Instruction) :
    (s.fetched i).host.env = s.host.env := by
  unfold fetched
  split <;> rfl

/-- The elements of an array have the storage of its type. -/
theorem Regular.storage_elements (h : s.Regular n b) {k : Nat} {a : VariableArray}
    (hk : s.machine.locals[k]? = some (.array a)) : ∀ e ∈ a.elements, e.data.storage = a.type.storage := by
  intro e he
  obtain ⟨d, -, hd⟩ := Locals.Declared.get h.declared hk
  cases hd with
  | array _ htype _ ha => rw [(ha e he).storage, (ha e he).type_eq, htype]

theorem Regular.fetched (h : s.Regular n b) (i : Instruction) : (s.fetched i).Regular n b where
  gridSize := h.gridSize
  declared := h.declared
  states := by rw [fetched_env]; exact h.states

end Session

/-- Whichever way it ends, a step leaves the grid and the declarations as they were. -/
theorem Session.Regular.step {n b : Nat} {s : Session Grid} (h : s.Regular n b) :
    Exec.Ends Exec.step s (fun _ t => t.Regular n b) fun _ t => t.Regular n b := by
  refine Exec.ends_step h (fun _ _ => h) fun i _ => ?_
  refine (Exec.regular_dispatch (h.fetched i) i).imp (fun target? t ht => ?_) fun _ _ he => he
  rw [Exec.ends_proceed]
  split
  · exact ht
  · split
    · exact ht
    · exact ⟨ht.gridSize, ht.declared, ht.states⟩

/-! The start of a run. Before its code is run a machine is bound to the grid of the environment and
the states of the points are made to fit it; the initial segment runs on a grid of one point, over
locals that keep their size. -/

namespace Exec

/-- A run that takes no instruction is about to take the first. -/
theorem execute_zero (s : Session Grid) : execute 0 s = .ok false (started s.ready .code) := by
  rw [execute_ready]
  rfl

theorem after_execute_zero (s : Session Grid) : (execute 0).after s = started s.ready .code := by
  unfold after
  rw [execute_zero]

end Exec

namespace Session

variable {b : Nat} {s : Session Grid}

/-- Locals that are declared on some grid are declared on the grid that the machine is bound to. -/
theorem regular_ready (hs : s.machine.Declared b)
    (hstates : ∃ k, s.host.env.states.WellKept k) :
    ∃ b', s.ready.Regular (Environment.pointCount s.host.env) b' ∧
      (b = s.machine.gridSize → b' = Environment.pointCount s.host.env) := by
  have hpos : 0 < Environment.pointCount s.host.env := Grid.pointCount_pos _
  have hmax : max (Environment.pointCount s.host.env) 1 = Environment.pointCount s.host.env := by omega
  have hrestated : s.ready.host.env.states.WellKept (Environment.pointCount s.host.env) := by
    show s.resized.restated.host.env.states.WellKept _
    unfold restated
    rw [resized_env]
    dsimp only
    split
    · exact RunningStates.wellKept_reset _ _
    · rename_i hsize
      obtain ⟨k, hk⟩ := hstates
      rw [resized_env]
      obtain rfl : k = Environment.pointCount s.host.env :=
        hk.size_running.symm.trans (not_not.mp hsize)
      exact hk
  have hmachine := s.ready_machine
  by_cases hn : Environment.pointCount s.host.env = s.machine.gridSize
  · have hresized : s.resized = s := by
      unfold resized
      exact if_neg (not_not.mpr hn)
    rw [hresized] at hmachine
    refine ⟨b, ⟨by rw [hmachine, hn], by rw [hmachine]; exact hs, hrestated⟩, fun hb => hb.trans hn.symm⟩
  · have hresized : s.resized.machine = s.machine.resizeGrid (Environment.pointCount s.host.env) := by
      unfold resized
      dsimp only
      rw [if_pos hn]
    have hdeclared := hs.resizeGrid (Environment.pointCount s.host.env)
    rw [hmax] at hdeclared
    refine ⟨_, ⟨?_, ?_, hrestated⟩, fun _ => rfl⟩
    · rw [hmachine, hresized, Machine.gridSize_resizeGrid, hmax]
    · rw [hmachine, hresized]
      exact hdeclared

/-- The variables of the graphics state are not touched. -/
theorem ready_graphics (s : Session Grid) : s.ready.host.env.graphics = s.host.env.graphics := by
  show s.resized.restated.host.env.graphics = _
  unfold restated
  rw [resized_env]
  dsimp only
  split
  · show s.resized.host.env.graphics = _
    rw [resized_env]
  · rw [resized_env]

theorem Regular.started {n : Nat} (h : s.Regular n b) (kind : SegmentKind) :
    (Exec.started s kind).Regular n b := ⟨h.gridSize, h.declared, h.states⟩

end Session

end ShadingMachine
