import ShadingMachine.Proofs.Execution.Entry
import ShadingMachine.Proofs.Execution.Served
import ShadingMachine.Proofs.Slots.Balance
import ShadingMachine.Proofs.Storage.States

/-! After an error. Whatever a run was doing when it failed, it leaves no operand and no slot in
use, and all points running of the grid that it was begun on. In an environment that keeps the size
of its grid that is the grid afterwards. -/
namespace ShadingMachine

variable {ε : Type} [Environment ε]

namespace Grid

variable {P : Grid → Prop}

theorem keeps_texture (hreport : ∀ text, (report text).Keeps P) (kind : TextureKind)
    (name channel out : Value) (mask : Mask) : (texture kind name channel out mask).Keeps P := by
  refine Serving.Keeps.bind (fun _ h => h) fun h => ?_
  dsimp only
  split
  · split
    · exact (hreport _).bind fun _ => Serving.keeps_pure _
    · exact Serving.keeps_pure _
  · split <;> exact Serving.keeps_pure _

theorem keeps_derivative (hreport : ∀ text, (report text).Keeps P) (kind : DerivativeKind)
    (v : Value) (divisor? : Option Value) (out : Value) (mask : Mask) :
    (derivative kind v divisor? out mask).Keeps P := by
  refine Serving.Keeps.bind (fun _ h => h) fun h => ?_
  dsimp only
  split
  · exact (hreport _).bind fun _ => Serving.keeps_pure _
  · split <;> exact Serving.keeps_pure _

theorem keeps_illuminance (hlight : ∀ g x f, P g → P (g.modifyGraphics x f))
    (p axis angle out : Value) (mask : Mask) : (illuminance p axis angle out mask).Keeps P := by
  refine Serving.Keeps.bind (fun _ h => h) fun h => ?_
  split
  · exact Serving.keeps_pure _
  · exact Serving.Keeps.bind (fun _ h => hlight _ _ _ h) fun _ =>
      Serving.Keeps.bind (fun _ h => hlight _ _ _ h) fun _ => Serving.keeps_pure _

theorem keeps_solar (hlight : ∀ g x f, P g → P (g.modifyGraphics x f)) (axis? : Option Value)
    (out : Value) (mask : Mask) : (solar axis? out mask).Keeps P := by
  unfold solar
  split
  · exact Serving.Keeps.bind (fun _ h => hlight _ _ _ h) fun _ => Serving.keeps_pure _
  · exact Serving.keeps_pure _

/-- Between the moves of a loop over the lights a grid changes in a few fields only. -/
theorem keepsInPlace (hkept : ∀ g graphics states output errors seed, P g →
    P { g with graphics, states, output, errors, seed }) : Environment.KeepsInPlace P where
  setVariable _ _ h := hkept _ _ _ _ _ _ h
  setStates _ h := hkept _ _ _ _ _ _ h
  report _ _ h := hkept _ _ _ _ _ _ h
  print _ _ h := hkept _ _ _ _ _ _ h
  derivative := keeps_derivative fun _ _ h => hkept _ _ _ _ _ _ h
  noise _ _ _ _ _ h := h
  random _ _ _ h := hkept _ _ _ _ _ _ h
  depth _ _ _ _ h := h
  calculateNormal _ _ _ _ h := h
  area _ _ _ _ h := h
  ambient _ _ _ h := h
  diffuse _ _ _ _ h := h
  specular _ _ _ _ _ _ h := h
  phong _ _ _ _ _ _ h := h
  texture kind name channel _ :=
    keeps_texture (fun _ _ h => hkept _ _ _ _ _ _ h) kind name channel
  trace _ _ _ _ _ h := hkept _ _ _ _ _ _ h
  attributeOf _ _ _ h := h
  optionOf _ _ _ h := h
  illuminance _ := keeps_illuminance fun _ _ _ h => hkept _ _ _ _ _ _ h
  illuminate _ _ _ _ _ _ h := hkept _ _ _ _ _ _ h
  solar axis _ := keeps_solar (fun _ _ _ h => hkept _ _ _ _ _ _ h) axis

theorem keeps_pointCount (n : Nat) :
    Environment.Keeps fun g : Grid => Environment.pointCount g = n where
  toKeepsInPlace := keepsInPlace fun _ _ _ _ _ _ h => h
  forgetLights _ h := h
  collectLights _ _ h := h
  firstLight _ h := h
  nextLight _ h := h

end Grid

namespace Exec

/-- A step leaves a machine bound to its grid. -/
theorem invariant_gridSize (k : Nat) : Invariant fun s : Session ε => s.machine.gridSize = k where
  step {s} hs := by
    refine ends_step hs (fun _ _ => hs) fun i _ => ?_
    refine (keeps_dispatch (stable_gridSize (ε := ε) k) (i := i) (fun _ _ => trivial)
      (fun _ _ _ _ _ => trivial : Readable _ (fun _ => True) i) 0 (s.fetched i) hs).imp
      (fun target? t ht => ?_) fun _ _ ht => ht.2
    rw [ends_proceed]
    split
    · exact ht
    · split <;> exact ht
  start _ hs := hs
  clear hs := hs
  note _ _ hs := hs

/-- A step changes the size of the grid only as far as the environment does. -/
theorem invariant_pointCount {n : Nat}
    (hε : Environment.Keeps fun e : ε => Environment.pointCount e = n) :
    Invariant fun s : Session ε => Environment.pointCount s.host.env = n where
  step {s} hs := by
    refine ends_step hs (fun _ _ => hs) fun i _ => ?_
    refine (guards_dispatch hε i (s.fetched i) (by rwa [Session.fetched_env])).imp
      (fun target? t ht => ?_) fun _ _ ht => ht
    rw [ends_proceed]
    split
    · exact ht
    · split <;> exact ht
  start _ hs := hs
  clear hs := hs
  note _ _ hs := hs

/-- A machine that runs its code is bound to the grid that it is begun on, and stays bound to it. -/
theorem ends_execute_gridSize (limit : Nat) {s : Session ε}
    (hgrid : 0 < Environment.pointCount s.host.env) :
    Ends (execute limit) s (fun _ t => t.machine.gridSize = Environment.pointCount s.host.env)
      fun _ t => t.machine.gridSize = Environment.pointCount s.host.env := by
  rw [ends_execute]
  exact (invariant_gridSize _).run .code limit
    ((congrArg Machine.gridSize s.ready_machine).trans (Session.gridSize_resized hgrid))

/-- An error leaves the states of the points reset. -/
theorem ends_execute_states (limit : Nat) (s : Session ε) :
    Ends (execute limit) s (fun _ _ => True) fun _ t => ∃ r : RunningStates,
      Environment.states t.host.env = r.reset (Environment.pointCount s.host.env) := by
  rw [ends_execute]
  exact (ends_total _).imp (fun _ _ _ => trivial) fun _ t _ => ⟨_, Environment.states_setStates ..⟩

/-- A run changes the size of the grid only as far as the environment does. -/
theorem ends_execute_pointCount (limit : Nat) {s : Session ε}
    (hε : Environment.Keeps fun e : ε =>
      Environment.pointCount e = Environment.pointCount s.host.env) :
    Ends (execute limit) s
      (fun _ t => Environment.pointCount t.host.env = Environment.pointCount s.host.env)
      fun _ t => Environment.pointCount t.host.env = Environment.pointCount s.host.env := by
  have hready : Environment.pointCount s.ready.host.env = Environment.pointCount s.host.env := by
    refine hε.forgetLights _ ?_
    unfold Session.restated
    dsimp only
    split
    · exact hε.setStates _ (by rw [s.resized_env])
    · rw [s.resized_env]
  rw [ends_execute]
  exact ((invariant_pointCount hε).run .code limit hready).imp (fun _ _ ht => ht)
    fun _ _ ht => hε.setStates _ ht

end Exec

namespace Machine

variable {p : Program} {c : Config} {m : Machine}

/-- A failed run can be followed by another one. In every environment with a point, and whatever was
called before, an error of the code leaves no operand, no slot in use, all points running and
current of the grid that the run was begun on, in no scope, and the machine bound to that grid, which
is the grid of the environment still if no service changes its size; an error of the initial segment
leaves no operand and no slot in use, and the machine on its grid with all of its points in the
mask. -/
theorem Reached.recovers (h : Reached p c m) (host : Host ε)
    (hgrid : 0 < Environment.pointCount host.env) (limit : Nat) :
    Exec.Ends (Exec.execute limit) ⟨m, host⟩ (fun _ _ => True) (fun _ t =>
      let n := Environment.pointCount host.env
      t.machine.AllFree ∧ t.machine.gridSize = n ∧
        (Environment.states t.host.env).running = .full n ∧
        (Environment.states t.host.env).current = .full n ∧
        (Environment.states t.host.env).saved = [] ∧
        ((Environment.Keeps fun e : ε => Environment.pointCount e = n) →
          Environment.pointCount t.host.env = n)) ∧
    Exec.Ends (Exec.executeInit limit) ⟨m, host⟩ (fun _ _ => True) (fun _ t =>
      t.machine.AllFree ∧ t.machine.gridSize = m.gridSize ∧ t.machine.mask = .full m.gridSize) := by
  constructor
  · have ha := Exec.leaves_execute closed_accounts limit ⟨m, host⟩ h.accounts
    have hs := Exec.ends_execute_stack limit ⟨m, host⟩
    have hn := Exec.ends_execute_gridSize limit (s := ⟨m, host⟩) hgrid
    have hr := Exec.ends_execute_states limit ⟨m, host⟩
    have hkept := Exec.ends_imp.mp (Exec.ends_execute_pointCount limit (s := ⟨m, host⟩))
    refine (Exec.ends_and.mp ⟨ha, Exec.ends_and.mp ⟨hs, Exec.ends_and.mp
      ⟨hn, Exec.ends_and.mp ⟨hr, hkept⟩⟩⟩⟩).imp (fun _ _ _ => trivial) fun e t ht => ?_
    obtain ⟨⟨-, haccounts⟩, hstack, hsize, ⟨r, hstates⟩, hcount⟩ := ht
    dsimp only
    rw [hstates]
    exact ⟨haccounts.allFree hstack, hsize, rfl, rfl, rfl, hcount⟩
  · have ha := Exec.leaves_executeInit closed_accounts limit ⟨m, host⟩ h.accounts
    have hs := Exec.ends_executeInit_stack limit ⟨m, host⟩
    have hn : Exec.Ends (Exec.executeInit limit) ⟨m, host⟩ (fun _ _ => True)
        (fun _ t => t.machine.gridSize = m.gridSize ∧ t.machine.mask = .full m.gridSize) := by
      unfold Exec.Ends
      rw [Exec.executeInit_eq]
      dsimp only
      cases Exec.run .init limit (⟨m.alone, .fresh 0 0, host.log⟩ : Session Grid) with
      | ok done t => trivial
      | error e t => exact ⟨rfl, rfl⟩
    exact (Exec.ends_and.mp ⟨ha, Exec.ends_and.mp ⟨hs, hn⟩⟩).imp (fun _ _ _ => trivial)
      fun e t ht => ⟨ht.1.2.allFree ht.2.1, ht.2.2⟩

/-- A machine that was stepped through one instruction, and has an operand left, enters a scope that no
point runs in and fails there on the sine of a text. -/
theorem Reached.recovers_in_empty_scope :
    let code : Segment := ⟨#[.opcode "pushif" ⟨.pushFloat, [.float]⟩, .float 1,
      .opcode "RS_PUSH" ⟨.flow .enterScope, []⟩, .opcode "S_CLEAR" ⟨.flow .clearCurrent, []⟩,
      .opcode "RS_GET" ⟨.flow .selectCurrent, []⟩,
      .opcode "pushis" ⟨.pushString, [.string]⟩, .string "x",
      .opcode "sin" ⟨.math .sin, []⟩], []⟩
    let p : Program := ⟨.surface, "1", ⟨0⟩, #[], .empty, code⟩
    let host : Host Grid := ⟨.fresh 1 0, #[]⟩
    let m := ((do let _ ← Exec.execute 0; Exec.steps 1).after ⟨.fresh p .standard, host⟩).machine
    Reached p .standard m ∧ m.stack.length = 1 ∧
      Exec.Ends (Exec.execute 9) ⟨m, host⟩ (fun _ _ => False) fun _ t =>
        t.machine.AllFree ∧ t.host.env.states.running = .full (Environment.pointCount t.host.env) := by
  intro code p host m
  have hm : Reached p .standard m := .inCode host 1 .fresh
  have hstack : m.stack.length = 1 := by decide +kernel
  have hfails : decide (Exec.Ends (Exec.execute 9) ⟨m, host⟩ (fun _ _ => False) fun _ _ => True) =
      true := by decide +kernel
  clear_value m
  have hrecovers := (hm.recovers host (Grid.pointCount_pos _) 9).1
  refine ⟨hm, hstack, (Exec.ends_and.mp ⟨of_decide_eq_true hfails, hrecovers⟩).imp
    (fun _ _ ht => ht.1) fun _ t ht => ?_⟩
  obtain ⟨-, hfree, -, hrunning, -, -, hcount⟩ := ht
  refine ⟨hfree, ?_⟩
  rw [hcount (Grid.keeps_pointCount _)]
  exact hrunning

end Machine

end ShadingMachine
