import ShadingMachine.Proofs.Initial.Alone

/-! Binding a machine to a grid and running its initial segment, in either order. The one order runs
the segment over locals of the new grid, the other over those of the grid before; both come to the
locals that their first points alone come to, spread over the new grid. -/
namespace ShadingMachine

variable {ε : Type} [Environment ε]

namespace Session

/-- Bound to the grid of its environment. -/
def bound (s : Session ε) : Session ε :=
  Exec.bind.after s

end Session

namespace Exec

/-- The initial segment after the grid. -/
def bindInit (limit : Nat) : Exec ε Bool := do
  Exec.bind
  executeInit limit

/-- The initial segment before the grid, which is bound also where the segment fails. -/
def initBind (limit : Nat) : Exec ε Bool := do
  let finished ← attempt (executeInit limit)
  Exec.bind
  ofExcept finished

/-- The outcome of a run, with the session that becomes of the one it leaves. -/
def carried {ε : Type} (r : EStateM.Result ExecError (Session Grid) Bool)
    (f : Session Grid → Session ε) : EStateM.Result ExecError (Session ε) Bool :=
  match r with
  | .ok done t => .ok done (f t)
  | .error e t => .error e (f t)

theorem executeInit_carried {ε : Type} (limit : Nat) (s : Session ε) :
    executeInit limit s =
      carried (run .init limit ⟨s.machine.alone, .fresh 0 0, s.host.log⟩) fun t =>
        ⟨t.machine.rejoin s.machine.gridSize, s.host.env, t.host.log⟩ :=
  executeInit_eq limit s

theorem bindInit_carried (limit : Nat) (s : Session ε) :
    let n := Environment.pointCount s.host.env
    bindInit limit s =
      carried (run .init limit ⟨(s.machine.resizeGrid n).alone, .fresh 0 0, s.host.log⟩) fun t =>
        ⟨t.machine.rejoin (max n 1), s.bound.host.env, t.host.log⟩ :=
  executeInit_carried limit s.bound

theorem initBind_carried (limit : Nat) (s : Session ε) :
    let n := Environment.pointCount s.host.env
    initBind limit s =
      carried (run .init limit ⟨s.machine.alone, .fresh 0 0, s.host.log⟩) fun t =>
        ⟨(t.machine.rejoin s.machine.gridSize).resizeGrid n, s.bound.host.env, t.host.log⟩ := by
  have hinit := executeInit_carried limit s
  unfold initBind
  simp only [Bind.bind, EStateM.bind, attempt, hinit]
  cases run .init limit (⟨s.machine.alone, .fresh 0 0, s.host.log⟩ : Session Grid) <;> rfl

/-- Runs from sessions with the same first points have the same outcome, and what becomes of the
sessions that they leave is the same if it is told from the first points. -/
theorem carried_eq {ε : Type} {I J : Session Grid → Prop} {x : Exec Grid Bool}
    {s s' : Session Grid} {f g : Session Grid → Session ε} (hs : s.atFirst = s'.atFirst)
    (hx : EndsAtFirst I x x s) (hx' : EndsAtFirst J x x s')
    (hfg : ∀ t t', I t → J t' → t.atFirst = t'.atFirst → f t = g t') :
    carried (x s) f = carried (x s') g := by
  rw [EndsAtFirst, hs] at hx
  unfold EndsAtFirst at hx'
  unfold Ends at hx hx'
  cases hr : x s with
  | ok done t =>
    rw [hr] at hx
    cases hr' : x s' with
    | ok done' t' =>
      rw [hr'] at hx'
      obtain ⟨rfl, hfirst⟩ := EStateM.Result.ok.inj (hx.2.symm.trans hx'.2)
      exact congrArg (EStateM.Result.ok done) (hfg t t' hx.1 hx'.1 hfirst)
    | error e t' =>
      rw [hr'] at hx'
      exact nomatch hx.2.symm.trans hx'.2
  | error e t =>
    rw [hr] at hx
    cases hr' : x s' with
    | ok done' t' =>
      rw [hr'] at hx'
      exact nomatch hx.2.symm.trans hx'.2
    | error e' t' =>
      rw [hr'] at hx'
      obtain ⟨rfl, hfirst⟩ := EStateM.Result.error.inj (hx.2.symm.trans hx'.2)
      exact congrArg (EStateM.Result.error e) (hfg t t' hx.1 hx'.1 hfirst)

theorem ends_carried {ε : Type} {x : Exec Grid Bool} {y : Exec ε Bool} {s : Session Grid}
    {s' : Session ε} {f : Session Grid → Session ε} {P : Session ε → Prop}
    (hy : y s' = carried (x s) f) (hx : Ends x s (fun _ t => P (f t)) fun _ t => P (f t)) :
    Ends y s' (fun _ t => P t) fun _ t => P t := by
  unfold Ends at hx ⊢
  rw [hy]
  cases hr : x s with
  | ok done t =>
    rw [hr] at hx
    exact hx
  | error e t =>
    rw [hr] at hx
    exact hx

end Exec

namespace Machine

variable {p : Program} {c : Config} {m : Machine} {b n : Nat}

/-- Machines with the same first points of their locals, one of them over the locals of the grid. -/
theorem rejoin_eq {m' : Machine} (hm : m.Declared (max n 1)) (hm' : m'.Declared b)
    (h : m.atFirst = m'.atFirst) (old : Nat) :
    m.rejoin (max n 1) = (m'.rejoin old).resizeGrid n := by
  have hfirst : m.locals.sizeTo 1 = m'.locals.sizeTo 1 := congrArg Machine.locals h
  have hlocals : m.locals.spreadFirst = m'.locals.spreadFirst.sizeTo (max n 1) := by
    rw [Locals.Declared.spreadFirst_eq hm, hfirst, Locals.Declared.spreadFirst_sizeTo hm']
  have hrest := congrArg (fun k : Machine => { k with
    gridSize := max n 1, mask := .full (max n 1), locals := m.locals.spreadFirst }) h
  rw [hlocals] at hrest
  unfold rejoin
  rw [hlocals]
  exact hrest

theorem even_rejoin (hm : m.Declared (max n 1)) :
    (m.rejoin (max n 1)).locals.Even (max n 1) := by
  have heven := m.locals.even_sizeTo (n := max n 1) (by omega)
  rw [← Locals.Declared.spreadFirst_eq hm] at heven
  exact heven

/-- Binding a machine to a grid and running its initial segment commute: whatever was called before,
both orders have the same outcome and leave the same machine, environment and notes, and every
varying local has one element at all points of the grid, also where the segment fails. -/
theorem Reached.bindInit_eq_initBind (h : Reached p c m) (host : Host ε) (limit : Nat) :
    Exec.bindInit limit ⟨m, host⟩ = Exec.initBind limit ⟨m, host⟩ ∧
      Exec.Ends (Exec.bindInit limit) ⟨m, host⟩
        (fun _ t => t.machine.locals.Even t.machine.gridSize)
        fun _ t => t.machine.locals.Even t.machine.gridSize := by
  let n := Environment.pointCount host.env
  obtain ⟨b, hb⟩ := h.declared
  let start (m : Machine) : Session Grid := ⟨m.alone, .fresh 0 0, host.log⟩
  have hregular {m : Machine} {b : Nat} (hm : m.Declared b) : (start m).Regular 1 b :=
    ⟨rfl, hm, RunningStates.wellKept_fresh 1⟩
  have hstart : (start (m.resizeGrid n)).atFirst = (start m).atFirst := by
    have hlocals := m.locals.sizeTo_sizeTo_one (max n 1)
    exact congrArg (fun locals => (⟨{ m.alone with locals }, .fresh 0 0, host.log⟩ : Session Grid))
      hlocals
  have hrun := Exec.sameAtFirst_run (max n 1) .init limit _ (hregular (hb.resizeGrid n))
  have hrun' := Exec.sameAtFirst_run b .init limit _ (hregular hb)
  constructor
  · rw [Exec.bindInit_carried, Exec.initBind_carried]
    refine Exec.carried_eq hstart hrun hrun' fun t t' ht ht' hfirst => ?_
    have hhost : t.host = t'.host := (congrArg Session.host hfirst :)
    rw [rejoin_eq ht.declared ht'.declared (congrArg Session.machine hfirst) m.gridSize, hhost]
  · have heven {t : Session Grid} (ht : t.Regular 1 (max n 1)) := even_rejoin ht.declared
    exact Exec.ends_carried (Exec.bindInit_carried limit ⟨m, host⟩)
      (hrun.imp (fun _ _ ht => heven ht.1) fun _ _ ht => heven ht.1)

/-- A machine that was bound to a grid of two points, with a default of a varying local, before a
grid of six. -/
theorem Reached.bindInit_eq_initBind_default :
    let init : Segment := ⟨#[.opcode "pushif" ⟨.pushFloat, [.float]⟩, .float 2,
      .opcode "pop" ⟨.popVariable, [.variable]⟩, .variable (.declared 0)], []⟩
    let p : Program := ⟨.surface, "1", ⟨0⟩, #[⟨"x", .float, .varying, true, false, none⟩], init, .empty⟩
    let small : Host Grid := ⟨.fresh 1 0, #[]⟩
    let large : Host Grid := ⟨.fresh 2 1, #[]⟩
    let m := (Call.initialise.run.after ⟨.fresh p .standard, small⟩).machine
    Reached p .standard m ∧ Exec.bindInit 9 ⟨m, large⟩ = Exec.initBind 9 ⟨m, large⟩ ∧
      Exec.Ends (Exec.initBind 9) ⟨m, large⟩ (fun done t => done = true ∧
        t.machine.locals.map (·.variables.map (·.data)) = #[#[⟨.float, Array.replicate 6 2⟩]])
        fun _ _ => False := by
  intro init p small large m
  have hm : Reached p .standard m := .call small .initialise .fresh
  have hends : decide (Exec.Ends (Exec.initBind 9) ⟨m, large⟩ (fun done t => done = true ∧
      t.machine.locals.map (·.variables.map (·.data)) = #[#[⟨.float, Array.replicate 6 2⟩]])
      fun _ _ => False) = true := by decide +kernel
  clear_value m
  exact ⟨hm, (hm.bindInit_eq_initBind large 9).1, of_decide_eq_true hends⟩

end Machine

end ShadingMachine
