import ShadingMachine.Pattern.Parse
import ShadingMachine.Proofs.Execution.Instruction
import ShadingMachine.Proofs.Execution.Reached
import ShadingMachine.Proofs.Grid.Instruction
import ShadingMachine.Proofs.Grid.Projection

/-! A run over a grid is at each point a run over that point alone, as long as the code has no jumps,
works point by point, and leaves no operand where it changes which points run. -/
namespace ShadingMachine

def Element.isPointwise : Element → Bool
  | opcode _ operation => operation.code.isPointwise
  | _ => true

/-- All opcodes of the segment work point by point. -/
def Segment.IsPointwise (s : Segment) : Prop := ∀ e ∈ s.elements, e.isPointwise = true

instance (s : Segment) : Decidable s.IsPointwise :=
  inferInstanceAs (Decidable (∀ e ∈ s.elements, e.isPointwise = true))

namespace Segment

variable {s : Segment} {kind : SegmentKind} {position : Nat} {j : Instruction}

/-- What an instruction that is read takes from its segment. -/
theorem instruction?_eq_ok (h : s.instruction? kind position = some (.ok j)) :
    j.position = position ∧ position + 1 + j.operands.length ≤ s.length ∧
      ∃ name operation, Element.opcode name operation ∈ s.elements ∧ j.code = operation.code := by
  unfold Segment.instruction? at h
  obtain ⟨e, he, hj⟩ := Option.map_eq_some_iff.mp h
  cases e with
  | opcode name operation =>
    dsimp only at hj
    split at hj
    · cases hj
    · rename_i hlen
      cases hj
      refine ⟨rfl, ?_, name, operation, Array.mem_of_getElem? he, rfl⟩
      simp only [Array.toList_extract, List.length_take, List.length_drop]
      omega
  | float | string | «variable» | label | unresolved => cases hj

theorem IsPointwise.code (hs : s.IsPointwise)
    (h : s.instruction? kind position = some (.ok j)) : j.code.isPointwise = true := by
  obtain ⟨-, -, name, operation, hmem, hcode⟩ := instruction?_eq_ok h
  rw [hcode]
  exact hs _ hmem

end Segment

namespace Session

variable {ε : Type}

/-- The instruction that comes next, if one can be read. -/
def next? (s : Session ε) : Option (Except ExecError Instruction) :=
  (s.machine.program.segment s.machine.segment).instruction? s.machine.segment s.machine.position

/-- No operand is left if the next instruction changes which points run. -/
def Settled (s : Session ε) : Prop :=
  match s.next? with
  | some (.ok j) => j.code.switches = true → s.machine.stack = []
  | _ => True

instance (s : Session ε) : Decidable s.Settled :=
  match h : s.next? with
  | some (.ok j) => decidable_of_iff (j.code.switches = true → s.machine.stack = [])
    (by rw [Settled, h])
  | some (.error _) | none => isTrue (by rw [Settled, h]; trivial)

end Session

namespace Exec

open Session

variable {n i : Nat} {s t : Session Grid}

/-- An instruction is read in the same way on both grids. -/
theorem working_fetched (h : SamePoint n i s t) (j : Instruction) :
    Working n i [] [] (s.fetched j) (t.fetched j) := by
  have henv {u : Session Grid} : (u.fetched j).host.env = u.host.env := by
    unfold fetched
    split <;> rfl
  have hs := henv (u := s)
  have ht := henv (u := t)
  have hruns : (s.fetched j).Runs i = s.Runs i := by
    unfold Runs
    rw [hs]
  exact
    { program := h.program
      config := h.config
      segment := h.segment
      position := rfl
      gridSize := h.gridSize
      gridSize_one := h.gridSize_one
      pointCount := by rw [hs]; exact h.pointCount
      pointCount_one := by rw [ht]; exact h.pointCount_one
      accounts := h.accounts
      accounts_one := h.accounts_one
      hand := .nil
      stack := by rw [hruns]; exact h.stack
      locals := h.locals
      graphics := by rw [hs, ht]; exact h.graphics
      states := by rw [hs, ht]; exact h.states
      mask := h.states.running
      mask_get := hruns.symm }

/-- No move of an instruction changes what is executed next. -/
theorem stable_place {ε : Type} (program : Program) (segment : SegmentKind) (position : Nat) :
    Stable fun _ (s : Session ε) => s.machine.program = program ∧ s.machine.segment = segment ∧
      s.machine.position = position where
  pop _ h := h
  push h := h
  release h := h
  allocate _ _ h := h
  store _ h := h
  host _ h := h
  write _ _ h := h
  writeElement _ _ _ h := h
  scatter _ h := h

theorem ends_dispatch_place {ε : Type} [Environment ε] (j : Instruction) (s : Session ε) :
    Ends (dispatch j) s (fun _ s' => s'.machine.program = s.machine.program ∧
      s'.machine.segment = s.machine.segment ∧ s'.machine.position = s.machine.position)
      fun _ _ => True :=
  (keeps_dispatch (stable_place s.machine.program s.machine.segment s.machine.position)
    (fun _ _ => trivial) (fun _ _ _ _ _ => trivial : Readable _ (fun _ => True) j) 0 s
    ⟨rfl, rfl, rfl⟩).imp (fun _ _ h => h) fun _ _ _ => trivial

/-- A step goes on with the next instruction, or there is none. -/
def Forward (s s' : Session Grid) (more : Bool) : Prop :=
  s'.machine.program = s.machine.program ∧ s'.machine.segment = s.machine.segment ∧
    (more = true → s.machine.position < s'.machine.position ∧
      s'.machine.position < (s.machine.program.segment s.machine.segment).length)

theorem together_step (hi : i < n) (h : SamePoint n i s t)
    (hcode : (s.machine.program.segment s.machine.segment).IsPointwise) (hsettled : s.Settled) :
    Together step s step t fun more s' more' t' =>
      more = more' ∧ SamePoint n i s' t' ∧ Forward s s' more := by
  unfold Together
  rw [step_eq, step_eq, ← h.program, ← h.segment, ← h.position]
  cases hfound : (s.machine.program.segment s.machine.segment).instruction? s.machine.segment
    s.machine.position with
  | none => exact ⟨rfl, h, rfl, rfl, fun hmore => by cases hmore⟩
  | some found =>
    cases found with
    | error e => rfl
    | ok j =>
      have hnext := (Segment.instruction?_eq_ok hfound).1
      have hempty : j.code.switches = true → s.machine.stack = [] := by
        have hnext? : s.next? = some (.ok j) := hfound
        unfold Settled at hsettled
        rw [hnext?] at hsettled
        exact hsettled
      have hdispatch := (together_dispatch hi (working_fetched h j) j (hcode.code hfound)
        hempty).and_ends (ends_dispatch_place j (s.fetched j))
      refine hdispatch.bind fun a s' b t' hd => ?_
      obtain ⟨⟨rfl, rfl, hsame⟩, hprogram, hsegment, hposition⟩ := hd
      refine ⟨by rw [hsame.position], hsame, hprogram, hsegment, fun hmore => ?_⟩
      have hlt : s'.machine.position < _ := of_decide_eq_true hmore
      refine ⟨?_, hlt⟩
      rw [hposition]
      show s.machine.position < j.position + 1 + j.operands.length
      omega

/-- No operand is left at any change of the running points among the next steps. -/
def SettledFor (s : Session Grid) (limit : Nat) : Prop :=
  ∀ k < limit, Ends (steps k) s (fun done u => done = false → u.Settled) fun _ _ => True

theorem SettledFor.step {limit : Nat} (h : SettledFor s (limit + 1)) {s' : Session Grid}
    (hs : Exec.step s = .ok true s') : SettledFor s' limit := by
  intro k hk
  have hnext := h (k + 1) (by omega)
  unfold steps at hnext
  rw [ends_bind] at hnext
  unfold Ends at hnext
  rw [hs] at hnext
  exact hnext

/-- By induction on the number of steps; the relation at the point is the invariant. -/
theorem together_steps (hi : i < n) (limit : Nat) (h : SamePoint n i s t)
    (hcode : (s.machine.program.segment s.machine.segment).IsPointwise)
    (hsettled : SettledFor s limit) :
    Together (steps limit) s (steps limit) t fun done s' done' t' =>
      done = done' ∧ SamePoint n i s' t' ∧
        (s.machine.position ≤ (s.machine.program.segment s.machine.segment).length →
          (s.machine.program.segment s.machine.segment).length < s.machine.position + limit →
          done = true) := by
  induction limit generalizing s t with
  | zero => exact ⟨rfl, h, fun hlt hlimit => by omega⟩
  | succ limit ih =>
    have hfirst : s.Settled := hsettled 0 (by omega) rfl
    have hstep := (together_step hi h hcode hfirst).and_ends (ends_eq step)
    refine hstep.bind fun more s' more' t' hm => ?_
    obtain ⟨⟨rfl, hsame, hprogram, hsegment, hforward⟩, hrun⟩ := hm
    cases more with
    | false => exact ⟨rfl, hsame, fun _ _ => rfl⟩
    | true =>
      obtain ⟨hlt, hend⟩ := hforward rfl
      have hcode' : (s'.machine.program.segment s'.machine.segment).IsPointwise := by
        rw [hprogram, hsegment]
        exact hcode
      refine (ih hsame hcode' (hsettled.step hrun)).imp fun done u done' v hu => ?_
      refine ⟨hu.1, hu.2.1, fun _ hlimit => hu.2.2 ?_ ?_⟩
      · rw [hprogram, hsegment]
        omega
      · rw [hprogram, hsegment]
        omega

theorem accounts_of_samePoint (h : SamePoint n i s t) :
    s.machine.Accounts ∧ t.machine.Accounts :=
  ⟨by simpa [Machine.Accounts] using h.accounts, by simpa [Machine.Accounts] using h.accounts_one⟩

theorem stack_one_nil (h : SamePoint n i s t) (hs : s.machine.stack = []) :
    t.machine.stack = [] := by
  have hstack := h.stack
  rw [hs] at hstack
  exact List.forall₂_nil_left_iff.mp hstack

/-- Where no slot is in use before and after, the pools are in balance. -/
theorem poolImbalance?_of_allFree {m m' : Machine} (hm : m.AllFree) (hm' : m'.AllFree) :
    poolImbalance? m.pools m'.pools = none := by
  unfold poolImbalance?
  rw [Option.map_eq_none_iff, List.find?_eq_none]
  intro k _
  simp [hm.2, hm'.2]

theorem samePoint_clearStack (h : SamePoint n i s t) :
    SamePoint n i { s with machine := s.machine.clearStack }
      { t with machine := t.machine.clearStack } :=
  { h with
    accounts := by simpa [Machine.Accounts] using (accounts_of_samePoint h).1.clearStack
    accounts_one := by simpa [Machine.Accounts] using (accounts_of_samePoint h).2.clearStack
    hand := .nil
    stack := .nil }

theorem together_checkBalance (h : SamePoint n i s t) (kind : SegmentKind) {m m' : Machine}
    (hm : m.AllFree) (hm' : m'.AllFree) :
    Together (checkBalance kind m.pools) s (checkBalance kind m'.pools) t
      fun _ s' _ t' => SamePoint n i s' t' := by
  have hcheck {u v : Session Grid} (huv : SamePoint n i u v) (hu : u.machine.stack = []) :
      Together (checkPools m.pools) u (checkPools m'.pools) v
        fun _ s' _ t' => SamePoint n i s' t' := by
    obtain ⟨ha, ha'⟩ := accounts_of_samePoint huv
    unfold checkPools
    rw [together_machine_bind, poolImbalance?_of_allFree hm (ha.allFree hu),
      poolImbalance?_of_allFree hm' (ha'.allFree (stack_one_nil huv hu))]
    exact huv
  unfold checkBalance
  rw [together_machine_bind]
  dsimp only
  have hdepth : t.machine.depth = s.machine.depth := h.length_stack.symm
  rw [hdepth, ← h.config]
  by_cases hd : s.machine.depth = 0
  · rw [if_neg (not_not.mpr hd), if_neg (not_not.mpr hd)]
    exact hcheck h (List.eq_nil_of_length_eq_zero hd)
  · rw [if_pos hd, if_pos hd]
    by_cases hstrict : s.machine.config.strict = true
    · rw [if_pos hstrict, if_pos hstrict]
      exact together_throw_bind _ _ _
    · rw [if_neg hstrict, if_neg hstrict]
      exact hcheck (samePoint_clearStack (s := { s with host := s.host.note _ _ })
        (t := { t with host := t.host.note _ _ }) { h with }) rfl

/-- The start of a run: the first instruction comes next, and the run is noted. -/
def started (s : Session Grid) (kind : SegmentKind) : Session Grid where
  machine := s.machine.start kind
  host := s.host.note .debug s!"executing {kind.name} segment over {s.machine.gridSize} points"

theorem together_run (hi : i < n) (h : SamePoint n i s t) (kind : SegmentKind)
    (hempty : s.machine.stack = []) (hcode : (s.machine.program.segment kind).IsPointwise)
    (limit : Nat) (hsettled : SettledFor (started s kind) limit) :
    Together (run kind limit) s (run kind limit) t fun done s' done' t' =>
      done = done' ∧ SamePoint n i s' t' ∧
        ((s.machine.program.segment kind).length < limit → done = true) := by
  have hstarted : SamePoint n i (started s kind) (started t kind) :=
    { h with segment := rfl, position := rfl }
  have hfree := (accounts_of_samePoint h).1.allFree hempty
  have hfree' := (accounts_of_samePoint h).2.allFree (stack_one_nil h hempty)
  show Together (do
      let finished ← attempt do
        if ← steps limit then
          checkBalance kind s.machine.pools
          return true
        return false
      if finished.toOption.isNone then modifyMachine Machine.clearStack
      ofExcept finished) (started s kind) (do
      let finished ← attempt do
        if ← steps limit then
          checkBalance kind t.machine.pools
          return true
        return false
      if finished.toOption.isNone then modifyMachine Machine.clearStack
      ofExcept finished) (started t kind) _
  refine Together.attempt_bind (R := fun done s' done' t' => done = done' ∧ SamePoint n i s' t' ∧
    ((s.machine.program.segment kind).length < limit → done = true)) ?_ ?_ fun e u v => rfl
  · refine (together_steps hi limit hstarted hcode hsettled).bind fun done u done' v hu => ?_
    obtain ⟨rfl, hsame, hdone⟩ := hu
    cases done with
    | false =>
      refine ⟨rfl, hsame, fun hlimit => hdone (Nat.zero_le _) ?_⟩
      show (s.machine.program.segment kind).length < 0 + limit
      omega
    | true =>
      exact (together_checkBalance hsame kind hfree hfree').bind fun _ _ _ _ h' =>
        ⟨rfl, h', fun _ => rfl⟩
  · rintro done u done' v hu
    exact hu

/-- The lights of an earlier loop are forgotten. -/
def withoutLights (s : Session Grid) : Session Grid :=
  { s with host := { s.host with env := { s.host.env with collected := [], cursor := 0 } } }

/-- A machine that is bound to its grid, with the states of that grid, is ready to run its code. -/
theorem ready_eq (hgrid : Environment.pointCount s.host.env = s.machine.gridSize)
    (hstates : s.host.env.states.size = s.machine.gridSize) : s.ready = withoutLights s := by
  have hresized : s.resized = s := if_neg (not_not.mpr hgrid)
  have hrestated : s.restated = s := if_neg (not_not.mpr (hstates.trans hgrid.symm))
  unfold Session.ready
  rw [hresized, hrestated]
  rfl

/-- What is known of the runs that stop early is known inside a longer run. -/
theorem settledFor_of_execute {limit : Nat}
    (hgrid : Environment.pointCount s.host.env = s.machine.gridSize)
    (hstates : s.host.env.states.size = s.machine.gridSize)
    (h : ∀ k < limit, Ends (execute k) s (fun done u => done = false → u.Settled)
      fun _ _ => True) : SettledFor (started (withoutLights s) .code) limit := by
  intro k hk
  have hrun := ends_execute.mp (h k hk)
  rw [ready_eq hgrid hstates] at hrun
  unfold run at hrun
  simp only [ends_bind, ends_machine, ends_serve, ends_modifyMachine, ends_attempt] at hrun
  refine hrun.imp (fun done u hu hdone => ?_) fun _ _ _ => trivial
  subst hdone
  exact hu rfl

/-- The code over a grid of any size refines the code over one point. Whatever the sessions have in
common at a point before, they have in common after, the variables of both kinds and the states of
the point; and an error on one of the grids is the same error on the other. Without jumps the run is
finished if it may take as many steps as the code has elements. -/
theorem execute_refines_point (hi : i < n) (h : SamePoint n i s t)
    (hempty : s.machine.stack = []) (hcode : s.machine.program.code.IsPointwise) (limit : Nat)
    (hsettled : ∀ k < limit, Ends (execute k) s (fun done u => done = false → u.Settled)
      fun _ _ => True) :
    Together (execute limit) s (execute limit) t fun done s' done' t' =>
      done = done' ∧ SamePoint n i s' t' ∧
        (s.machine.program.code.length < limit → done = true) := by
  have hgrid := h.pointCount.trans h.gridSize.symm
  have hgrid' := h.pointCount_one.trans h.gridSize_one.symm
  have hstates := h.states.running.size.trans h.gridSize.symm
  have hstates' := h.states.running.size_one.trans h.gridSize_one.symm
  have hforget : SamePoint n i (withoutLights s) (withoutLights t) := { h with }
  have hrun := together_run hi hforget .code hempty hcode limit
    (settledFor_of_execute hgrid hstates hsettled)
  unfold Together
  rw [execute_ready, execute_ready, ready_eq hgrid hstates, ready_eq hgrid' hstates']
  exact Together.attempt_bind hrun (fun _ _ _ _ hu => hu) fun e u v => rfl

/-- A conditional assignment on a patch of two points, and on its second point alone. -/
theorem execute_refines_point_conditional :
    let code : Segment := ⟨#[.opcode "RS_PUSH" ⟨.flow .enterScope, []⟩,
      .opcode "pushv" ⟨.pushVariable, [.variable]⟩, .variable (.graphics .s),
      .opcode "S_GET" ⟨.flow .setCurrent, []⟩, .opcode "RS_GET" ⟨.flow .selectCurrent, []⟩,
      .opcode "pushif" ⟨.pushFloat, [.float]⟩, .float 1,
      .opcode "pop" ⟨.popVariable, [.variable]⟩, .variable (.declared 0),
      .opcode "RS_INVERSE" ⟨.flow .invertScope, []⟩,
      .opcode "RS_POP" ⟨.flow .leaveScope, []⟩], []⟩
    let p : Program :=
      ⟨.surface, "1", ⟨0⟩, #[⟨"x", .float, .varying, false, false, none⟩], .empty, code⟩
    let s : Session Grid := Exec.bind.after ⟨.fresh p .standard, .fresh 1 0, #[]⟩
    Together (execute 12) s (execute 12) (s.atPoint 1) fun done s' done' t' =>
      done = done' ∧ SamePoint 2 1 s' t' ∧
        (s.machine.program.code.length < 12 → done = true) := by
  intro code p s
  have hsized : s.IsSized 2 := isSized_bind p .standard 1 0 #[]
  have hcode : s.machine.program.code.IsPointwise := by decide +kernel
  have hsettled : ∀ k < 12, Ends (execute k) s (fun done u => done = false → u.Settled)
      fun _ _ => True := by decide +kernel
  clear_value s
  exact execute_refines_point (by decide) (hsized.samePoint 1) hsized.stack hcode 12 hsettled

end Exec

end ShadingMachine
