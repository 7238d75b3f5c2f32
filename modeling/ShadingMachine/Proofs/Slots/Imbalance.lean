import ShadingMachine.Proofs.Execution.Entry
import ShadingMachine.Proofs.Slots.Balance

/-! When the pools are found out of balance. No instruction reports it; it is reported at the end of a
run, just where operands from before the run are gone. They are given back with the others that are
left, or the run has used them up, and either way fewer slots are in use than at the start. -/
namespace ShadingMachine

namespace ExecError

def IsPoolImbalance : ExecError → Prop
  | .poolImbalance .. => True
  | _ => False

theorem IsRuntime.not_isPoolImbalance {e : ExecError} (h : e.IsRuntime) : ¬e.IsPoolImbalance := by
  cases e <;> first | exact id | exact h.elim

end ExecError

namespace Instruction

variable {i : Instruction} {e : ExecError}

theorem operand_error {α : Type} {k : Nat} {expected : String} {read? : Element → Option α}
    (h : i.operand k expected read? = .error e) : ¬e.IsPoolImbalance := by
  unfold operand at h
  split at h
  · split at h
    · cases h
    · cases h
      exact id
  · cases h
    exact id

theorem target_error (h : i.target = .error e) : ¬e.IsPoolImbalance := by
  unfold target at h
  split at h <;> cases h <;> exact id

theorem scalar?_error {ls : Locals} {k : Nat} (h : ls.scalar? k = .error e) : ¬e.IsPoolImbalance := by
  unfold Locals.scalar? at h
  split at h
  · rename_i l _
    cases l <;> cases h
    exact id
  · cases h
    exact id

theorem array?_error {ls : Locals} {k : Nat} (h : ls.array? k = .error e) : ¬e.IsPoolImbalance := by
  unfold Locals.array? at h
  split at h
  · rename_i l _
    cases l <;> cases h
    exact id
  · cases h
    exact id

theorem ReadError.not_isPoolImbalance {locals : Locals} (h : i.ReadError locals e) :
    ¬e.IsPoolImbalance := by
  have hscalar (h : i.variableRef = .error e ∨
      ∃ k, i.variableRef = .ok (.declared k) ∧ locals.scalar? k = .error e) :
      ¬e.IsPoolImbalance := by
    obtain h | ⟨k, -, h⟩ := h
    · exact operand_error h
    · exact scalar?_error h
  unfold ReadError at h
  split at h
  · exact operand_error h
  · obtain h | h | h := h <;> exact operand_error h
  · exact operand_error h
  all_goals first
    | exact hscalar h
    | exact target_error h
    | exact h.elim
    | obtain h | ⟨k, -, h⟩ | ⟨x, -, rfl⟩ := h
      · exact operand_error h
      · exact array?_error h
      · exact id

end Instruction

theorem Segment.instruction?_error {s : Segment} {kind : SegmentKind} {position : Nat}
    {e : ExecError} (h : s.instruction? kind position = some (.error e)) : ¬e.IsPoolImbalance := by
  unfold instruction? at h
  obtain ⟨x, -, hx⟩ := Option.map_eq_some_iff.mp h
  cases x with
  | opcode name operation =>
    dsimp only at hx
    split at hx
    · cases hx
      exact id
    · cases hx
  | _ =>
    cases hx
    exact id

/-- The pools are out of balance where all is free now and was not before. -/
theorem poolImbalance?_of_accounts {m m' : Machine} (hm : m.Accounts) (hm' : m'.AllFree) :
    (m.stack = [] ∧ poolImbalance? m.pools m'.pools = none) ∨
      m.stack ≠ [] ∧ ∃ e, poolImbalance? m.pools m'.pools = some e ∧ e.IsPoolImbalance := by
  have hkinds (type : ValueType) (detail : Detail) : (type, detail) ∈ poolKinds := by
    cases type <;> cases detail <;> decide
  cases hs : m.stack with
  | nil =>
    refine .inl ⟨rfl, ?_⟩
    unfold poolImbalance?
    rw [Option.map_eq_none_iff, List.find?_eq_none]
    simp [(hm.allFree hs).2, hm'.2]
  | cons slot rest =>
    refine .inr ⟨List.cons_ne_nil _ _, ?_⟩
    have hused : (m.pools.get slot.type slot.detail).inUse ≠ 0 := by
      rw [hm.slotsAccounted.inUse, hs, List.countP_cons]
      simp
    have hfound : (poolKinds.find? fun k =>
        (m.pools.get k.1 k.2).inUse != (m'.pools.get k.1 k.2).inUse).isSome = true := by
      rw [List.find?_isSome]
      exact ⟨_, hkinds slot.type slot.detail, by simpa [hm'.2] using hused⟩
    obtain ⟨k, hk⟩ := Option.isSome_iff_exists.mp hfound
    unfold poolImbalance?
    rw [hk, Option.map_some]
    exact ⟨_, rfl, trivial⟩

namespace Exec

variable {ε : Type} [Environment ε]

theorem ends_step_sound (s : Session ε) :
    Ends step s (fun _ _ => True) fun e _ => ¬e.IsPoolImbalance := by
  have hstable : Stable fun _ (_ : Session ε) => True :=
    ⟨fun _ h => h, fun h => h, fun h => h, fun _ _ h => h, fun _ h => h, fun _ h => h,
      fun _ _ h => h, fun _ _ _ h => h, fun _ h => h⟩
  refine ends_step trivial (fun _ h => Segment.instruction?_error h) fun i _ => ?_
  refine (keeps_dispatch hstable (E := fun e => ¬e.IsPoolImbalance)
    (fun _ he => he.not_isPoolImbalance) (fun _ _ _ _ he => he.not_isPoolImbalance) 0 _
    trivial).imp (fun target? t _ => ?_) fun _ _ he => he.1
  rw [ends_proceed]
  split
  · trivial
  · split
    · exact id
    · trivial

/-- By induction on the number of steps. -/
theorem ends_steps_sound (limit : Nat) (s : Session ε) :
    Ends (steps limit) s (fun _ _ => True) fun e _ => ¬e.IsPoolImbalance := by
  induction limit generalizing s with
  | zero => trivial
  | succ limit ih =>
    unfold steps
    rw [ends_bind]
    refine (ends_step_sound s).imp (fun more t _ => ?_) fun _ _ he => he
    cases more with
    | true => exact ih t
    | false => trivial

omit [Environment ε] in
/-- After a run from a machine to a session, whether the pools are out of balance. -/
theorem ends_checkBalance_iff {m : Machine} (hm : m.Accounts) (kind : SegmentKind) {t : Session ε}
    (ht : t.machine.Accounts) :
    let out := m.stack ≠ [] ∧ (t.machine.config.strict = true → t.machine.stack = [])
    Ends (checkBalance kind m.pools) t (fun _ _ => ¬out) fun e _ => e.IsPoolImbalance ↔ out := by
  intro out
  have hcheck {u : Session ε} (hu : u.machine.AllFree)
      (hout : t.machine.config.strict = true → t.machine.stack = []) :
      Ends (checkPools m.pools) u (fun _ _ => ¬out) fun e _ => e.IsPoolImbalance ↔ out := by
    simp only [checkPools, ends_bind, ends_machine]
    obtain ⟨hs, hnone⟩ | ⟨hs, e, he, hpool⟩ := poolImbalance?_of_accounts hm hu
    · rw [hnone]
      exact fun h => h.1 hs
    · rw [he]
      exact iff_of_true hpool ⟨hs, hout⟩
  unfold checkBalance
  simp only [ends_bind, ends_machine]
  split
  · rename_i hd
    have hstack : t.machine.stack ≠ [] := fun h => hd (congrArg List.length h)
    split
    · rename_i hstrict
      exact iff_of_false id fun h => hstack (h.2 hstrict)
    · rename_i hstrict
      exact hcheck (u := { t with machine := t.machine.clearStack, host := t.host.note _ _ })
        (ht.clearStack.allFree rfl) fun h => absurd h hstrict
  · rename_i hd
    have hstack := List.eq_nil_of_length_eq_zero (not_not.mp hd)
    exact hcheck (ht.allFree hstack) fun _ => hstack

/-- There are operands already, and the computation comes to its end, where none may be left if the
machine is strict. -/
def Exhausts {ε : Type} (x : Exec ε Bool) (s : Session ε) : Prop :=
  s.machine.stack ≠ [] ∧ Ends x s
    (fun done t => done = true ∧ (s.machine.config.strict = true → t.machine.stack = []))
    fun _ _ => False

theorem ends_run_iff (kind : SegmentKind) (limit : Nat) {s : Session ε} (hs : s.machine.Accounts) :
    let out := Exhausts (do let _ ← run kind 0; steps limit) s
    Ends (run kind limit) s (fun _ _ => ¬out) fun e _ => e.IsPoolImbalance ↔ out := by
  intro out
  let start : Session ε := ⟨s.machine.start kind,
    s.host.note .debug s!"executing {kind.name} segment over {s.machine.gridSize} points"⟩
  have hout : out ↔ s.machine.stack ≠ [] ∧ Ends (steps limit) start
      (fun done t => done = true ∧ (s.machine.config.strict = true → t.machine.stack = []))
      fun _ _ => False := Iff.and Iff.rfl (by rw [ends_bind]; exact Iff.rfl)
  have haccounts := leaves_steps Machine.closed_accounts limit start hs
  have hconfig := leaves_steps (Machine.closed_program s.machine.program s.machine.config) limit
    start ⟨rfl, rfl⟩
  have hsound := ends_steps_sound limit start
  clear_value out
  unfold run
  simp only [ends_bind, ends_machine, ends_serve, ends_modifyMachine, ends_attempt]
  refine (ends_and.mp ⟨ends_eq (steps limit), ends_and.mp ⟨haccounts,
    ends_and.mp ⟨hconfig, hsound⟩⟩⟩).imp (fun done t ht => ?_) fun e t ht => ?_
  · obtain ⟨hrun, haccounts, ⟨-, hconfig⟩, -⟩ := ht
    have hends : out ↔ s.machine.stack ≠ [] ∧ (done = true ∧
        (t.machine.config.strict = true → t.machine.stack = [])) := by
      rw [hout, hconfig]
      unfold Ends
      rw [hrun]
    cases done with
    | false => exact fun h => absurd (hends.mp h).2.1 (by decide)
    | true =>
      simp only [true_and] at hends
      simp only [if_true, ends_bind]
      refine (ends_checkBalance_iff hs kind haccounts).imp (fun _ _ h => ?_) fun _ _ h => ?_
      · exact fun h' => h (hends.mp h')
      · exact h.trans hends.symm
  · obtain ⟨hrun, -, -, hsound⟩ := ht
    refine iff_of_false hsound fun h => ?_
    have hno := (hout.mp h).2
    unfold Ends at hno
    rw [hrun] at hno
    exact hno

end Exec

namespace Machine

variable {p : Program} {c : Config} {m : Machine} {ε : Type} [Environment ε]

/-- Just when a run finds the pools out of balance, whatever was called before: a run before it was
left with operands, and it comes to its end, where it leaves none itself or is lenient. So it never
does on a machine without operands. -/
theorem Reached.unbalanced_iff (hm : Reached p c m) (host : Host ε) (limit : Nat) :
    let code := Exec.Exhausts (do let _ ← Exec.execute 0; Exec.steps limit) ⟨m, host⟩
    let init := Exec.Exhausts (do let _ ← Exec.run .init 0; Exec.steps limit)
      (⟨m.alone, .fresh 0 0, host.log⟩ : Session Grid)
    Exec.Ends (Exec.execute limit) ⟨m, host⟩ (fun _ _ => ¬code)
      (fun e _ => e.IsPoolImbalance ↔ code) ∧
    Exec.Ends (Exec.executeInit limit) ⟨m, host⟩ (fun _ _ => ¬init)
      (fun e _ => e.IsPoolImbalance ↔ init) := by
  intro code init
  constructor
  · have hstack := Session.ready_stack ⟨m, host⟩
    have haccounts := Exec.leaves_execute closed_accounts 0 ⟨m, host⟩ hm.accounts
    rw [Exec.ends_execute] at haccounts ⊢
    have hcode : code ↔
        Exec.Exhausts (do let _ ← Exec.run .code 0; Exec.steps limit) (Session.ready ⟨m, host⟩) := by
      unfold code Exec.Exhausts
      rw [hstack.1, hstack.2.2]
      simp only [Exec.ends_bind, Exec.ends_execute]
    rw [hcode]
    exact Exec.ends_run_iff .code limit haccounts
  · have hrun := Exec.ends_run_iff .init limit (closed_accounts.alone hm.accounts)
      (s := (⟨m.alone, .fresh 0 0, host.log⟩ : Session Grid))
    unfold Exec.Ends at hrun ⊢
    rw [Exec.executeInit_eq]
    dsimp only
    cases hr : Exec.run .init limit (⟨m.alone, .fresh 0 0, host.log⟩ : Session Grid) <;>
      rw [hr] at hrun <;> exact hrun

/-- A machine that was stepped through one instruction, and has an operand left, drops that one with
its own: it leaves none, and its pools are out of balance. -/
theorem Reached.unbalanced_by_second_drop :
    let code : Segment := ⟨#[.opcode "pushif" ⟨.pushFloat, [.float]⟩, .float 1,
      .opcode "drop" ⟨.drop, []⟩, .opcode "drop" ⟨.drop, []⟩], []⟩
    let p : Program := ⟨.surface, "1", ⟨0⟩, #[], .empty, code⟩
    let host : Host Grid := ⟨.fresh 1 0, #[]⟩
    let begun := ((Call.start .code).run.after ⟨.fresh p .standard, host⟩).machine
    let m := (Call.step.run.after ⟨begun, host⟩).machine
    Reached p .standard m ∧ Exec.Ends (Exec.execute 9) ⟨m, host⟩ (fun _ _ => False)
      fun e _ => e.IsPoolImbalance := by
  intro code p host begun m
  have hm : Reached p .standard m := .call host .step (.call host (.start .code) .fresh)
  have hfails : decide (Exec.Ends (Exec.execute 9) ⟨m, host⟩ (fun _ _ => False) fun _ _ => True) =
      true := by decide +kernel
  have hstack : m.stack ≠ [] := by decide +kernel
  have hends : decide (Exec.Ends (do let _ ← Exec.execute 0; Exec.steps 9) ⟨m, host⟩
      (fun done t => done = true ∧ (m.config.strict = true → t.machine.stack = []))
      fun _ _ => False) = true := by decide +kernel
  clear_value m
  exact ⟨hm, (Exec.ends_and.mp ⟨of_decide_eq_true hfails, (hm.unbalanced_iff host 9).1⟩).imp
    (fun _ _ ht => ht.1) fun _ _ ht => ht.2.mpr ⟨hstack, of_decide_eq_true hends⟩⟩

/-- A lenient machine clears what it finds at the end of a run, also an operand from before the run,
and then blames the pools: the program drops every operand that it pushes. -/
theorem Reached.unbalanced_by_clearing :
    let code : Segment := ⟨#[.opcode "pushif" ⟨.pushFloat, [.float]⟩, .float 1,
      .opcode "drop" ⟨.drop, []⟩], []⟩
    let p : Program := ⟨.surface, "1", ⟨0⟩, #[], .empty, code⟩
    let lenient : Config := ⟨false, false⟩
    let host : Host Grid := ⟨.fresh 1 0, #[]⟩
    let begun := ((Call.start .code).run.after ⟨.fresh p lenient, host⟩).machine
    let m := (Call.step.run.after ⟨begun, host⟩).machine
    Reached p lenient m ∧ Exec.Ends (Exec.execute 9) ⟨m, host⟩ (fun _ _ => False)
      fun e _ => e = .poolImbalance "uniform float" 1 0 := by
  intro code p lenient host begun m
  have hm : Reached p lenient m := .call host .step (.call host (.start .code) .fresh)
  have hfails : decide (Exec.Ends (Exec.execute 9) ⟨m, host⟩ (fun _ _ => False)
      fun e _ => e = .poolImbalance "uniform float" 1 0) = true := by decide +kernel
  clear_value m
  exact ⟨hm, of_decide_eq_true hfails⟩

end Machine

end ShadingMachine
