import ShadingMachine.Proofs.Slots.Balance
import ShadingMachine.Proofs.Storage.Operands
import ShadingMachine.Proofs.Storage.States

/-! Whole runs of two machines for one program, which may have any history. Slots that are handed out
again hold what was left in them, and only the points that run are written, so a run can read what
an earlier one left behind. A run that reads its operands only where they have been written does
not: it has the same outcome on both machines. -/
namespace ShadingMachine

namespace Session

/-- The next instruction reads its operands only where they have been written. -/
def LegibleNext (s : Session Grid) (w : Written) : Prop :=
  match s.next? with
  | some (.ok i) => (s.fetched i).Legible w i.code
  | _ => True

instance (s : Session Grid) (w : Written) : Decidable (s.LegibleNext w) :=
  match h : s.next? with
  | some (.ok i) =>
    decidable_of_iff ((s.fetched i).Legible w i.code) (by simp only [LegibleNext, h])
  | some (.error _) => .isTrue (by simp only [LegibleNext, h])
  | none => .isTrue (by simp only [LegibleNext, h])

/-- What is written of the slots after the next instruction. -/
def writtenNext (s : Session Grid) (w : Written) (s' : Session Grid) : Written :=
  match s.next? with
  | some (.ok i) => (s.fetched i).written w i.code s'
  | _ => w

/-- Of the next instructions at most so many are executed, and each reads its operands only where
they have been written. -/
def Clean : Nat → Written → Session Grid → Prop
  | 0, _, _ => True
  | limit + 1, w, s => s.LegibleNext w ∧
    match Exec.step s with
    | .ok true s' => Clean limit (s.writtenNext w s') s'
    | _ => True

instance decidableClean : (limit : Nat) → (w : Written) → (s : Session Grid) →
    Decidable (Clean limit w s)
  | 0, _, _ => .isTrue trivial
  | limit + 1, w, s =>
    match h : Exec.step s with
    | .ok true s' =>
      have := decidableClean limit (s.writtenNext w s') s'
      decidable_of_iff (s.LegibleNext w ∧ Clean limit (s.writtenNext w s') s')
        (by simp only [Clean, h])
    | .ok false _ => decidable_of_iff (s.LegibleNext w) (by simp only [Clean, h, and_true])
    | .error _ _ => decidable_of_iff (s.LegibleNext w) (by simp only [Clean, h, and_true])

/-- A varying value of that size. -/
abbrev Sized (n : Nat) (v : Value) : Prop := v.detail = .varying → v.size = n

variable {n b : Nat} {V : Value → Prop} {K : Known} {s t : Session Grid}

theorem Regular.supplies (h : s.Regular n b) : s.Supplies (Sized n) where
  copies v _ hv := by
    rw [h.gridSize]
    exact Value.size_fitted n hv
  arrays := h.storage_elements

/-- The same instruction is about to be executed in both. -/
theorem Lockstep.fetched (h : Lockstep Eq V K [] [] s t) (i : Instruction) :
    InStep Eq V K [] [] (s.fetched i) (t.fetched i) where
  frame := congrArg (fun m : Machine => { m with position := i.position + 1 + i.operands.length })
    h.frame
  host := by
    unfold Session.fetched
    simp only [h.config, h.segment, h.host]
  fitting := h.fitting
  accounts := h.accounts
  accounts' := h.accounts'
  hand := h.hand
  stack := h.stack
  mask := congrArg (fun host : Host Grid => host.env.states.running) h.host

end Session

namespace Exec

open Session

variable {n b : Nat} {V : Value → Prop} {K : Known} {w : Written} {s t : Session Grid}

theorem paired_proceed (h : InStep Eq V K [] [] s t) (kind : SegmentKind) (length : Nat)
    (target? : Option Nat) :
    Paired (proceed kind length target?) s (proceed kind length target?) t fun more s' more' t' =>
      more = more' ∧ s'.machine.stack = s.machine.stack ∧ Lockstep Eq V K [] [] s' t' := by
  cases target? with
  | none =>
    refine ⟨?_, rfl, h.toLockstep⟩
    rw [h.position]
  | some target =>
    unfold proceed
    dsimp only
    split
    · exact paired_throw _ h.sameOutside
    · exact ⟨rfl, rfl, { h.toLockstep with
        frame := congrArg (fun m : Machine => { m with position := target }) h.frame }⟩

/-- A step that reads only what has been written keeps two sessions in lockstep. -/
theorem paired_step (h : Lockstep Eq (Sized n) w.knows [] [] s t) (hs : s.Regular n b)
    (hlegible : s.LegibleNext w) :
    Paired step s step t fun more s' more' t' =>
      more = more' ∧ Lockstep Eq (Sized n) (s.writtenNext w s').knows [] [] s' t' := by
  unfold Session.writtenNext
  unfold Session.LegibleNext at hlegible
  unfold Paired
  rw [step_eq, step_eq, h.program, h.segment, h.position]
  unfold Session.next? at hlegible ⊢
  cases hi : (s.machine.program.segment s.machine.segment).instruction? s.machine.segment
    s.machine.position with
  | none => exact ⟨rfl, h⟩
  | some found =>
    cases found with
    | error e => exact ⟨rfl, h.sameOutside⟩
    | ok i =>
      rw [hi] at hlegible
      have hsupplies := (hs.fetched i).supplies
      have hdispatch := paired_dispatch (h.fetched i) hsupplies (hs.masked_fetched i) i hlegible
      refine hdispatch.bind fun target? s' target?' t' hp => ?_
      obtain ⟨rfl, h'⟩ := hp
      refine (paired_proceed h' _ _ target?).imp fun more s'' more' t'' hp => ?_
      obtain ⟨rfl, hstack, h''⟩ := hp
      refine ⟨rfl, ?_⟩
      unfold Session.written at h'' ⊢
      rw [hstack]
      exact h''

/-- By induction on the number of steps. -/
theorem paired_steps (limit : Nat) (h : Lockstep Eq (Sized n) w.knows [] [] s t)
    (hs : s.Regular n b) (hclean : Clean limit w s) :
    Paired (steps limit) s (steps limit) t fun done s' done' t' =>
      done = done' ∧ ∃ K, Lockstep Eq (Sized n) K [] [] s' t' := by
  induction limit generalizing w s t with
  | zero => exact ⟨rfl, _, h⟩
  | succ limit ih =>
    obtain ⟨hlegible, hrest⟩ := hclean
    have hstep := (paired_step h hs hlegible).and_ends (ends_and.mp ⟨hs.step, ends_eq step⟩)
    refine hstep.bind fun more s' more' t' hp => ?_
    obtain ⟨⟨rfl, h'⟩, hs', hrun⟩ := hp
    cases more with
    | false => exact ⟨rfl, _, h'⟩
    | true =>
      rw [hrun] at hrest
      exact ih h' hs' hrest

end Exec

/-- Sessions without operands whose machines are of one program and look the same. -/
structure Session.Matching (s t : Session Grid) : Prop extends s.SameOutside t where
  program : t.machine.program = s.machine.program
  config : t.machine.config = s.machine.config
  gridSize : t.machine.gridSize = s.machine.gridSize
  allFree : s.machine.AllFree
  allFree' : t.machine.AllFree
  accounts : s.machine.Accounts
  accounts' : t.machine.Accounts

namespace Session.Matching

variable {s t : Session Grid}

theorem resized (h : s.Matching t) : s.resized.Matching t.resized := by
  unfold Session.resized
  dsimp only
  rw [h.host, h.gridSize]
  split
  · exact { h with
      locals := congrArg (Locals.sizeTo · _) h.locals
      host := rfl
      gridSize := rfl }
  · exact h

theorem restated (h : s.Matching t) : s.restated.Matching t.restated := by
  unfold Session.restated
  dsimp only
  rw [h.host]
  split
  · exact
      { h with
        host := by
          unfold Session.reset
          rw [h.host] }
  · exact h

theorem ready (h : s.Matching t) : s.ready.Matching t.ready :=
  have hrestated := h.resized.restated
  { hrestated with
    host := congrArg (fun host : Host Grid => { host with
      env := { host.env with collected := [], cursor := 0 } }) hrestated.host }

theorem lockstep (h : s.Matching t) {n : Nat} (hn : 0 < n) (hs : s.machine.gridSize = n)
    (kind : SegmentKind) (K : Known) :
    Lockstep Eq (Sized n) K [] [] (Exec.started s kind) (Exec.started t kind) where
  frame := by
    unfold Exec.started Machine.start Machine.frame
    dsimp only
    rw [h.program, h.config, h.gridSize, h.locals]
  host := by
    unfold Exec.started
    rw [h.host, h.gridSize]
  fitting := by
    subst hs
    exact Value.fitting_sized hn
  accounts := by
    show s.machine.pools.Accounts (([] : List Slot) + s.machine.stack)
    simpa [Machine.Accounts] using h.accounts
  accounts' := by
    show t.machine.pools.Accounts (([] : List Slot) + t.machine.stack)
    simpa [Machine.Accounts] using h.accounts'
  hand := .nil
  stack := by
    show List.Forall₂ _ s.machine.stack t.machine.stack
    rw [h.allFree.1, h.allFree'.1]
    exact .nil

end Session.Matching

namespace Exec

open Session

variable {n b : Nat} {V : Value → Prop} {K : Known} {w : Written} {s t : Session Grid}

/-- Where operands are left, they are left on both sides. -/
theorem paired_checkBalance (h : Lockstep Eq V K [] [] s t) (kind : SegmentKind) {m m' : Machine}
    (hm : m.AllFree) (hm' : m'.AllFree) :
    Paired (checkBalance kind m.pools) s (checkBalance kind m'.pools) t fun _ s' _ t' =>
      s'.SameOutside t' := by
  have ha : s.machine.Accounts := by simpa [Machine.Accounts] using h.accounts
  have ha' : t.machine.Accounts := by simpa [Machine.Accounts] using h.accounts'
  have hcheck {u v : Session Grid} (huv : u.SameOutside v) (hu : u.machine.AllFree)
      (hv : v.machine.AllFree) :
      Paired (checkPools m.pools) u (checkPools m'.pools) v fun _ s' _ t' => s'.SameOutside t' := by
    unfold checkPools
    rw [paired_machine_bind, poolImbalance?_of_allFree hm hu, poolImbalance?_of_allFree hm' hv]
    exact huv
  unfold checkBalance
  rw [paired_machine_bind]
  dsimp only
  have hdepth : t.machine.depth = s.machine.depth := h.length_stack.symm
  rw [hdepth, h.config]
  by_cases hd : s.machine.depth = 0
  · rw [if_neg (not_not.mpr hd), if_neg (not_not.mpr hd)]
    exact hcheck h.sameOutside (ha.allFree (List.eq_nil_of_length_eq_zero hd))
      (ha'.allFree (List.eq_nil_of_length_eq_zero (hdepth.trans hd)))
  · rw [if_pos hd, if_pos hd]
    by_cases hstrict : s.machine.config.strict = true
    · rw [if_pos hstrict, if_pos hstrict]
      exact ⟨rfl, h.sameOutside⟩
    · rw [if_neg hstrict, if_neg hstrict]
      refine hcheck (u := { s with machine := s.machine.clearStack, host := s.host.note _ _ })
        (v := { t with machine := t.machine.clearStack, host := t.host.note _ _ })
        ⟨h.locals, ?_⟩ (ha.clearStack.allFree rfl) (ha'.clearStack.allFree rfl)
      rw [h.host]

theorem paired_run (h : s.Matching t) (hs : s.Regular n b) (hn : 0 < n) (kind : SegmentKind)
    (limit : Nat) (hclean : Clean limit w (started s kind)) :
    Paired (run kind limit) s (run kind limit) t fun done s' done' t' =>
      done = done' ∧ s'.SameOutside t' := by
  show Paired (do
      let finished ← attempt do
        if ← steps limit then
          checkBalance kind s.machine.pools
          return true
        return false
      if finished.toOption.isNone then modifyMachine Machine.clearStack
      ofExcept finished) (started s kind) (do
      let finished ← attempt do
        if ← steps limit then
          checkBalance kind t.machine.pools
          return true
        return false
      if finished.toOption.isNone then modifyMachine Machine.clearStack
      ofExcept finished) (started t kind) _
  refine Paired.attempt_bind (R := fun done s' done' t' => done = done' ∧ s'.SameOutside t') ?_
    (fun _ _ _ _ hp => hp) fun e s' t' hst => ⟨rfl, hst.locals, hst.host⟩
  have hsteps := paired_steps limit (h.lockstep hn hs.gridSize kind w.knows) (hs.started kind) hclean
  refine hsteps.bind fun done s' done' t' hp => ?_
  obtain ⟨rfl, K, h'⟩ := hp
  cases done with
  | false => exact ⟨rfl, h'.sameOutside⟩
  | true =>
    exact (paired_checkBalance h' kind h.allFree h.allFree').bind fun _ _ _ _ hst => ⟨rfl, hst⟩

/-- An error resets the states of the points on both sides. -/
theorem paired_executeBound (h : s.Matching t) (hs : s.Regular n b) (hn : 0 < n) (k limit : Nat)
    (hclean : Clean limit w (started s .code)) :
    Paired (executeBound k limit) s (executeBound k limit) t fun done s' done' t' =>
      done = done' ∧ s'.SameOutside t' := by
  refine Paired.attempt_bind (paired_run h hs hn .code limit hclean) (fun _ _ _ _ hp => hp) ?_
  intro e s' t' hst
  refine ⟨rfl, hst.locals, congrArg (fun host : Host Grid => { host with
    env := { host.env with states := host.env.states.reset k } }) hst.host⟩

end Exec

namespace Machine

variable {p : Program} {c : Config} {m m' : Machine}

/-- A machine computes what another one of the same program and configuration computes, whatever the
two have run before, if they are on grids of one size with the same locals and no operands, and if
the run reads its operands only where they have been written: the same result or the same error, and
the same locals, variables of the graphics state, states of the points and lines that are printed
and noted. -/
theorem Reached.execute_reused (hm : Reached p c m) (hm' : Reached p c m')
    (hsize : m'.gridSize = m.gridSize) (hlocals : m'.locals = m.locals) (hempty : m.stack = [])
    (hempty' : m'.stack = []) (host : Host Grid) (hstates : ∃ k, host.env.states.WellKept k)
    (limit : Nat)
    (hclean : Session.Clean limit (fun _ => .only []) ((Exec.execute 0).after ⟨m, host⟩)) :
    Exec.Paired (Exec.execute limit) ⟨m, host⟩ (Exec.execute limit) ⟨m', host⟩
      fun done s done' s' => done = done' ∧ s.SameOutside s' := by
  have hmatching : Session.Matching ⟨m, host⟩ ⟨m', host⟩ :=
    { locals := hlocals
      host := rfl
      program := hm'.program.trans hm.program.symm
      config := hm'.config.trans hm.config.symm
      gridSize := hsize
      allFree := hm.accounts.allFree hempty
      allFree' := hm'.accounts.allFree hempty'
      accounts := hm.accounts
      accounts' := hm'.accounts }
  obtain ⟨b, hdeclared⟩ := hm.declared
  obtain ⟨b', hregular, -⟩ := Session.regular_ready (s := ⟨m, host⟩) hdeclared hstates
  rw [Exec.after_execute_zero] at hclean
  unfold Exec.Paired
  rw [Exec.execute_ready, Exec.execute_ready]
  exact Exec.paired_executeBound hmatching.ready hregular (Grid.pointCount_pos _) _ limit hclean

/-- A conditional assignment, on a machine that is bound to a patch of two points and on the same
machine after it has run once. -/
theorem Reached.execute_reused_conditional :
    let code : Segment := ⟨#[.opcode "RS_PUSH" ⟨.flow .enterScope, []⟩,
      .opcode "pushv" ⟨.pushVariable, [.variable]⟩, .variable (.graphics .s),
      .opcode "S_GET" ⟨.flow .setCurrent, []⟩, .opcode "RS_GET" ⟨.flow .selectCurrent, []⟩,
      .opcode "pushv" ⟨.pushVariable, [.variable]⟩, .variable (.graphics .s),
      .opcode "pushif" ⟨.pushFloat, [.float]⟩, .float 1,
      .opcode "addff" ⟨.arithmetic .add .floats, []⟩,
      .opcode "pop" ⟨.popVariable, [.variable]⟩, .variable (.graphics .t),
      .opcode "RS_POP" ⟨.flow .leaveScope, []⟩], []⟩
    let p : Program := ⟨.surface, "1", ⟨0⟩, #[], .empty, code⟩
    let host : Host Grid := ⟨.fresh 1 0, #[]⟩
    let m := (Call.initialise.run.after (⟨.fresh p .standard, host⟩ : Session Grid)).machine
    let m' := ((Call.execute 20).run.after (⟨m, host⟩ : Session Grid)).machine
    (m'.gridSize = m.gridSize ∧ m'.locals = m.locals ∧ m.stack = [] ∧ m'.stack = [] ∧
      Session.Clean 20 (fun _ => .only []) ((Exec.execute 0).after ⟨m, host⟩)) ∧
    Exec.Paired (Exec.execute 20) ⟨m, host⟩ (Exec.execute 20) ⟨m', host⟩
      fun done s done' s' => done = done' ∧ s.SameOutside s' := by
  intro code p host m m'
  have hrest : m'.gridSize = m.gridSize ∧ m'.locals = m.locals ∧ m.stack = [] ∧ m'.stack = [] := by
    decide +kernel
  have hclean : Session.Clean 20 (fun _ => .only []) ((Exec.execute 0).after ⟨m, host⟩) := by
    decide +kernel
  have hm : Reached p .standard m := .call host .initialise .fresh
  have hm' : Reached p .standard m' := .call host (.execute 20) hm
  clear_value m m'
  obtain ⟨hsize, hlocals, hempty, hempty'⟩ := hrest
  have hstates : ∃ k, host.env.states.WellKept k := ⟨_, RunningStates.wellKept_fresh _⟩
  exact ⟨⟨hsize, hlocals, hempty, hempty', hclean⟩,
    hm.execute_reused hm' hsize hlocals hempty hempty' host hstates 20 hclean⟩

/-- Where no point runs, merging texts writes nothing into the slot of its result. When the points
run again and the result is read, it is the text of a parameter that an earlier run left there. -/
theorem Reached.not_execute_reused_merge :
    let code : Segment := ⟨#[.opcode "RS_PUSH" ⟨.flow .enterScope, []⟩,
      .opcode "S_CLEAR" ⟨.flow .clearCurrent, []⟩, .opcode "RS_GET" ⟨.flow .selectCurrent, []⟩,
      .opcode "pushv" ⟨.pushVariable, [.variable]⟩, .variable (.declared 0),
      .opcode "pushis" ⟨.pushString, [.string]⟩, .string "x",
      .opcode "pushif" ⟨.pushFloat, [.float]⟩, .float 1,
      .opcode "merges" ⟨.merge .string, []⟩, .opcode "RS_POP" ⟨.flow .leaveScope, []⟩,
      .opcode "pop" ⟨.popVariable, [.variable]⟩, .variable (.declared 1)], []⟩
    let p : Program := ⟨.surface, "1", ⟨0⟩, #[⟨"a", .string, .varying, true, false, none⟩,
      ⟨"y", .string, .varying, false, false, none⟩], .empty, code⟩
    let host : Host Grid := ⟨.fresh 0 0, #[]⟩
    let m := ((Call.setArgument "a" (.strings ["foo"]) none).run.after
      (⟨.fresh p .standard, host⟩ : Session Grid)).machine
    let m' := ((Call.execute 20).run.after (⟨m, host⟩ : Session Grid)).machine
    Reached p .standard m ∧ Reached p .standard m' ∧ m'.gridSize = m.gridSize ∧
      m'.locals = m.locals ∧ m.stack = [] ∧ m'.stack = [] ∧
      ¬Exec.Paired (Exec.execute 20) ⟨m, host⟩ (Exec.execute 20) ⟨m', host⟩
        fun done s done' s' => done = done' ∧ s.SameOutside s' := by
  intro code p host m m'
  let y (s : Session Grid) : Option String := (s.machine.locals.scalar? 1).toOption.map (·.text 0)
  have hm : Reached p .standard m := .call host (.setArgument _ _ _) .fresh
  have hm' : Reached p .standard m' := .call host (.execute 20) hm
  have hrest : m'.gridSize = m.gridSize ∧ m'.locals = m.locals ∧ m.stack = [] ∧ m'.stack = [] := by
    decide +kernel
  have hy : y ((Exec.execute 20).after ⟨m, host⟩) = some "" ∧
      y ((Exec.execute 20).after ⟨m', host⟩) = some "foo" := by decide +kernel
  clear_value m m'
  obtain ⟨hsize, hlocals, hempty, hempty'⟩ := hrest
  refine ⟨hm, hm', hsize, hlocals, hempty, hempty', fun h => ?_⟩
  have hsame := (h.imp fun _ _ _ _ hp => hp.2).after
  have htext : y ((Exec.execute 20).after ⟨m', host⟩) = y ((Exec.execute 20).after ⟨m, host⟩) :=
    congrArg (fun ls : Locals => (ls.scalar? 1).toOption.map (·.text 0)) hsame.locals
  rw [hy.1, hy.2] at htext
  exact absurd htext (by decide)

end Machine

end ShadingMachine
