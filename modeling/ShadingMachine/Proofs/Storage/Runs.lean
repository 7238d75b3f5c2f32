import ShadingMachine.Proofs.Storage.Typed

/-! Machines that are used call by call, each run to its end, on grids of any sizes. Between two calls
such a machine is at rest: its stack is empty, and its locals and its mask are for the grid that it
is bound to. So every run starts with operands of their types, and keeps them: no operand is read
outside its data. -/
namespace ShadingMachine

namespace Value

/-- The place at which the value is read for a point is in its data. -/
def Has (v : Value) (i : Nat) : Prop := v.place i < v.size

instance (v : Value) (i : Nat) : Decidable (v.Has i) := inferInstanceAs (Decidable (_ < _))

theorem IsShaped.has {v : Value} {n : Nat} (h : v.IsShaped n) {i : Nat} (hi : i < n) : v.Has i := by
  unfold Has
  rw [h.size]
  cases hd : v.detail with
  | uniform =>
    rw [place_uniform hd]
    exact Nat.one_pos
  | varying =>
    rw [place_varying hd]
    exact Nat.lt_of_lt_of_le hi (Nat.le_max_left n 1)

end Value

/-- The variables of the graphics state have the types and sizes that they are constructed with, and
the masks are for one grid. -/
structure Grid.WellKept (g : Grid) : Prop where
  graphics : ∀ x, (g.graphics.get x).toValue.OfKind x.type x.detail (Environment.pointCount g)
  states : ∃ k, g.states.WellKept k

theorem Grid.wellKept_fresh (u v : Nat) : (fresh u v).WellKept where
  graphics x := by
    have hfresh (x : GraphicsVariable) :
        ((Variable.fresh x.name x.type x.detail).sizeTo (Resolution.pointCount ⟨u, v⟩)).toValue.OfKind
          x.type x.detail (Resolution.pointCount ⟨u, v⟩) := (Value.ofKind_fresh _ _).sizeTo _
    show Value.OfKind _ _ (Resolution.pointCount ⟨u, v⟩) ((patch ⟨u, v⟩).get x).toValue
    have hfill (x : GraphicsVariable) (s : Storage) (mask : Mask) (f : Nat → s.Elem) :=
      (hfresh x).sameKind (Value.sameKind_write _ s mask f)
    unfold patch
    rw [GraphicsState.get_ofFn]
    dsimp only
    split
    all_goals first
      | exact hfill _ _ _ _
      | exact hfresh _
  states := ⟨_, RunningStates.wellKept_fresh _⟩

namespace Session

variable {n b : Nat} {s : Session Grid}

/-- The operands have what the next instruction reads, at the first point and at those that run. -/
def InRange (s : Session Grid) : Prop :=
  ∀ slot ∈ s.machine.stack, ∀ i ∈ 0 :: s.host.env.states.running.ones,
    (s.machine.pools.value slot).Has i

theorem Typed.inRange (h : s.Typed n b) (hn : 0 < n) : s.InRange := by
  intro slot hslot i hi
  refine (h.stack slot hslot).has ?_
  rcases List.mem_cons.mp hi with rfl | hi
  · exact hn
  · exact h.states.size_running ▸ h.states.tidy_running.lt_of_mem_ones hi

end Session

instance (r : EStateM.Result ExecError (Session Grid) Bool) : Decidable (∀ t, r ≠ .ok false t) :=
  match r with
  | .ok false t => .isFalse fun h => h t rfl
  | .ok true _ => .isTrue fun _ h => nomatch h
  | .error _ _ => .isTrue fun _ h => nomatch h

namespace Machine

/-- Without operands, and with locals and a mask for the grid. -/
structure AtRest (m : Machine) : Prop where
  accounts : m.Accounts
  empty : m.stack = []
  declared : m.Declared m.gridSize
  mask : m.mask.size = m.gridSize ∧ m.mask.Tidy

namespace AtRest

variable {m : Machine}

theorem fresh (p : Program) (c : Config) : (Machine.fresh p c).AtRest where
  accounts := Pools.accounts_empty
  empty := rfl
  declared := Locals.declared_ofDeclarations p.locals
  mask := ⟨rfl, Mask.tidy_full 1⟩

theorem resizeGrid (h : m.AtRest) (n : Nat) : (m.resizeGrid n).AtRest where
  accounts := h.accounts
  empty := h.empty
  declared := h.declared.resizeGrid n
  mask := ⟨rfl, Mask.tidy_full _⟩

theorem setArgument (h : m.AtRest) {ε : Type} [Environment ε] {m' : Machine} {env : ε}
    {name : String} {arg : Argument} {space : Option String}
    (hm : m.setArgument env name arg space = .ok m') : m'.AtRest := by
  have hdeclared := h.declared.setArgument hm
  obtain ⟨k, l, rfl, -⟩ := setArgument_cases hm
  exact ⟨h.accounts, h.empty, hdeclared, h.mask⟩

theorem of_typed {n : Nat} {s : Session Grid} (h : s.Typed n n) (hs : s.machine.stack = []) :
    s.machine.AtRest where
  accounts := h.accounts
  empty := hs
  declared := h.gridSize ▸ h.declared
  mask := h.gridSize ▸ h.mask

/-- A machine at rest is ready for a run of its code on any grid. -/
theorem typed_ready (h : m.AtRest) {host : Host Grid} (hhost : host.env.WellKept) :
    (Session.ready ⟨m, host⟩).Typed (Environment.pointCount host.env)
      (Environment.pointCount host.env) := by
  obtain ⟨b, hregular, hb⟩ := Session.regular_ready (s := ⟨m, host⟩) h.declared hhost.states
  obtain rfl := hb rfl
  have hmachine : (Session.ready ⟨m, host⟩).machine.AtRest := by
    rw [Session.ready_machine]
    unfold Session.resized
    dsimp only
    split
    · exact h.resizeGrid _
    · exact h
  exact
    { hregular with
      mask := by
        rw [← hregular.gridSize]
        exact hmachine.mask
      accounts := hmachine.accounts
      stack := fun slot hslot => by
        rw [hmachine.empty] at hslot
        cases hslot
      graphics := by
        rw [Session.ready_graphics]
        exact hhost.graphics }

/-- A machine at rest is ready for a run of its initial segment, which is over one point while the
locals stay as they are. -/
theorem typed_alone (h : m.AtRest) (log : Text.Log) :
    (⟨m.alone, .fresh 0 0, log⟩ : Session Grid).Typed 1 m.gridSize where
  gridSize := rfl
  declared := h.declared
  states := RunningStates.wellKept_fresh 1
  mask := ⟨rfl, Mask.tidy_full 1⟩
  accounts := h.accounts
  stack slot hslot := by
    rw [show m.alone.stack = [] from h.empty] at hslot
    cases hslot
  graphics := (Grid.wellKept_fresh 0 0).graphics

theorem execute (h : m.AtRest) {host : Host Grid} (hhost : host.env.WellKept) (limit : Nat) :
    Exec.Ends (Exec.execute limit) ⟨m, host⟩ (fun done t => done = true → t.machine.AtRest)
      fun _ t => t.machine.AtRest := by
  have hrun := Exec.ends_run_typed (h.typed_ready hhost) (Grid.pointCount_pos _) .code limit
  rw [Exec.ends_execute]
  exact hrun.imp (fun _ _ ht hdone => of_typed ht.1 (ht.2 hdone)) fun _ t ht =>
    of_typed (s := t) ht.1 ht.2

theorem executeInit (h : m.AtRest) {ε : Type} (host : Host ε) (limit : Nat) :
    Exec.Ends (Exec.executeInit limit) ⟨m, host⟩ (fun done t => done = true → t.machine.AtRest)
      fun _ t => t.machine.AtRest := by
  have hrejoin {t : Session Grid} (ht : t.Typed 1 m.gridSize) (hs : t.machine.stack = []) :
      (t.machine.rejoin m.gridSize).AtRest :=
    ⟨ht.accounts, hs, ht.declared.rejoin _, rfl, Mask.tidy_full _⟩
  have hrun := Exec.ends_run_typed (h.typed_alone host.log) Nat.one_pos .init limit
  unfold Exec.Ends at hrun ⊢
  rw [Exec.executeInit_eq]
  dsimp only
  cases hr : Exec.run .init limit (⟨m.alone, .fresh 0 0, host.log⟩ : Session Grid) with
  | ok done t =>
    rw [hr] at hrun
    exact fun hdone => hrejoin hrun.1 (hrun.2 hdone)
  | error e t =>
    rw [hr] at hrun
    exact hrejoin hrun.1 hrun.2

end AtRest

/-- The machines that come from a fresh one by calls, in any order and on any grids that are well
kept. A run has come to its end, be it an error, when the next call is made. -/
inductive Used (p : Program) (c : Config) : Machine → Prop
  | fresh : Used p c (fresh p c)
  | initialise {m : Machine} (host : Host Grid) :
    Used p c m → Used p c (Call.initialise.run.after ⟨m, host⟩).machine
  | setArgument {m : Machine} (host : Host Grid) (name : String) (arg : Argument)
      (space : Option String) :
    Used p c m → Used p c ((Call.setArgument name arg space).run.after ⟨m, host⟩).machine
  | execute {m : Machine} (host : Host Grid) (limit : Nat) : Used p c m → host.env.WellKept →
    (∀ t, Exec.execute limit ⟨m, host⟩ ≠ .ok false t) →
    Used p c ((Call.execute limit).run.after ⟨m, host⟩).machine
  | executeInit {m : Machine} (host : Host Grid) (limit : Nat) : Used p c m →
    (∀ t, Exec.executeInit limit ⟨m, host⟩ ≠ .ok false t) →
    Used p c ((Call.executeInit limit).run.after ⟨m, host⟩).machine

variable {p : Program} {c : Config} {m : Machine}

/-- By induction on the calls. -/
theorem Used.atRest (h : Used p c m) : m.AtRest := by
  have hafter (call : Call) {m : Machine} {host : Host Grid}
      (hends : ∀ t, call.run ⟨m, host⟩ ≠ .ok false t)
      (hrest : Exec.Ends call.run ⟨m, host⟩ (fun done t => done = true → t.machine.AtRest)
        fun _ t => t.machine.AtRest) : (call.run.after ⟨m, host⟩).machine.AtRest := by
    refine (Exec.ends_iff_after (P := fun t => t.machine.AtRest)).mp
      ((Exec.ends_and.mp ⟨Exec.ends_eq call.run, hrest⟩).imp (fun done t ht => ?_)
        fun _ _ ht => ht.2)
    cases done with
    | false => exact absurd ht.1 (hends t)
    | true => exact ht.2 rfl
  induction h with
  | fresh => exact .fresh p c
  | initialise host _ ih => exact ih.resizeGrid _
  | @setArgument m host name arg space _ ih =>
    refine (Exec.ends_iff_after (P := fun t => t.machine.AtRest)).mp ?_
    simp only [Call.run, Exec.ends_bind, Exec.ends_machine, Exec.ends_environment,
      Exec.ends_ofExcept]
    exact ⟨fun m' hm => ih.setArgument hm, fun _ _ => ih⟩
  | execute host limit _ hhost hends ih =>
    exact hafter (.execute limit) hends (ih.execute hhost limit)
  | executeInit host limit _ hends ih =>
    exact hafter (.executeInit limit) hends (ih.executeInit host limit)

/-- Whatever calls a machine comes from, between the instructions of its runs every slot on the stack
has data of its type, one element if it is uniform and one for each point of the grid if it varies;
the locals are as declared, sized to the grid that the machine is bound to; and the masks have no
bit above the grid. So no instruction reads an operand outside its data. -/
theorem Used.typed (h : Used p c m) :
    m.AtRest ∧
    (∀ host : Host Grid, host.env.WellKept → ∀ k,
      let n := Environment.pointCount host.env
      Exec.Ends (do let _ ← Exec.execute 0; Exec.steps k) ⟨m, host⟩
        (fun _ t => t.Typed n n ∧ t.InRange) fun _ _ => True) ∧
    ∀ log k, Exec.Ends (do let _ ← Exec.run .init 0; Exec.steps k)
      (⟨m.alone, .fresh 0 0, log⟩ : Session Grid)
      (fun _ t => t.Typed 1 m.gridSize ∧ t.InRange) fun _ _ => True := by
  have hsteps {n b : Nat} {s : Session Grid} (hs : s.Typed n b) (hn : 0 < n) (k : Nat) :
      Exec.Ends (Exec.steps k) s (fun _ t => t.Typed n b ∧ t.InRange) fun _ _ => True :=
    (Exec.ends_steps_typed k hs hn).imp (fun _ _ ht => ⟨ht, ht.inRange hn⟩) fun _ _ _ => trivial
  refine ⟨h.atRest, fun host hhost k => ?_, fun log k => ?_⟩
  · rw [Exec.ends_bind]
    exact Exec.ends_of_ok (Exec.execute_zero _)
      (hsteps ((h.atRest.typed_ready hhost).started .code) (Grid.pointCount_pos _) k)
  · rw [Exec.ends_bind]
    exact hsteps ((h.atRest.typed_alone log).started .init) Nat.one_pos k

/-- A machine that is bound to a patch of two points, runs its code there and then on a patch of six,
with two operands on the stack. -/
theorem Used.typed_on_two_patches :
    let code : Segment := ⟨#[.opcode "pushv" ⟨.pushVariable, [.variable]⟩, .variable (.graphics .s),
      .opcode "pushv" ⟨.pushVariable, [.variable]⟩, .variable (.declared 0),
      .opcode "addff" ⟨.arithmetic .add .floats, []⟩,
      .opcode "pop" ⟨.popVariable, [.variable]⟩, .variable (.declared 0)], []⟩
    let p : Program :=
      ⟨.surface, "1", ⟨0⟩, #[⟨"x", .float, .varying, false, false, none⟩], .empty, code⟩
    let small : Host Grid := ⟨.fresh 1 0, #[]⟩
    let large : Host Grid := ⟨.fresh 2 1, #[]⟩
    let bound := (Call.initialise.run.after ⟨.fresh p .standard, small⟩).machine
    let m := ((Call.execute 9).run.after ⟨bound, small⟩).machine
    let run : Exec Grid Bool := do let _ ← Exec.execute 0; Exec.steps 2
    Used p .standard m ∧ (run.after ⟨m, large⟩).machine.stack.length = 2 ∧
      Exec.Ends run ⟨m, large⟩ (fun _ t => t.Typed 6 6 ∧ t.InRange) fun _ _ => True := by
  intro code p small large bound m run
  have hbound : Used p .standard bound := .initialise small .fresh
  have hdone : ∀ t, Exec.execute 9 ⟨bound, small⟩ ≠ .ok false t := by decide +kernel
  have hm : Used p .standard m := .execute small 9 hbound (Grid.wellKept_fresh 1 0) hdone
  have hstack : (run.after ⟨m, large⟩).machine.stack.length = 2 := by decide +kernel
  clear_value m
  exact ⟨hm, hstack, hm.typed.2.1 large (Grid.wellKept_fresh 2 1) 2⟩

end Machine

end ShadingMachine
