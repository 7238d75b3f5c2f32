import ShadingMachine.Proofs.Structured.Code

/-! Statements that never fail: reading a variable that there is, pushing a constant, and storing
into a variable that there is. A condition that is a variable and an assignment from a variable or
a constant are made of them. -/
namespace ShadingMachine

namespace Statement

def read (r : VariableRef) : Statement :=
  ⟨"pushv", ⟨.pushVariable, [.variable]⟩, [.variable r], rfl⟩

def constant (x : Float32) : Statement := ⟨"pushif", ⟨.pushFloat, [.float]⟩, [.float x], rfl⟩

def store (r : VariableRef) : Statement :=
  ⟨"pop", ⟨.popVariable, [.variable]⟩, [.variable r], rfl⟩

end Statement

namespace Exec

open Session

variable {r : VariableRef} {v : Variable} {s : Session Grid}

theorem readVariable_eq_ok (hv : s.scalar? r = some v) : readVariable r s = .ok v s := by
  cases r with
  | declared k =>
    have hread : readVariable (.declared k) s =
        (ofExcept (s.machine.locals.scalar? k) : Exec Grid Variable) s := rfl
    rw [hread, scalar?_declared.mp hv]
    rfl
  | graphics x =>
    cases hv
    rfl

/-- The value of a variable is pushed. -/
theorem ends_read (hv : s.scalar? r = some v) : Ends (dispatch ((Statement.read r).instruction 0)) s
    (fun _ t => s.SameVariables t ∧ ∃ slot, t.machine.stack = slot :: s.machine.stack ∧
      slot.type = v.type) fun _ _ => False := by
  show Ends ((readVariable r >>= fun v => pushCopy v.toValue) >>= fun _ => pure none) s _ _
  rw [ends_bind, ends_bind]
  exact ends_of_ok (readVariable_eq_ok hv) ⟨⟨rfl, rfl⟩, _, rfl, rfl⟩

theorem ends_constant (x : Float32) (s : Session Grid) :
    Ends (dispatch ((Statement.constant x).instruction 0)) s
      (fun _ t => s.SameVariables t ∧ ∃ slot, t.machine.stack = slot :: s.machine.stack)
      fun _ _ => False := ⟨⟨rfl, rfl⟩, _, rfl⟩

/-- An assignment to a variable that there is succeeds, also if the value does not fit. -/
theorem ends_assign (hv : s.scalar? r = some v) (j : Instruction) (source : Value) :
    Ends (assign j r source) s (fun _ t => t.machine.stack = s.machine.stack)
      fun _ _ => False := by
  unfold assign
  rw [ends_bind]
  refine ends_of_ok (readVariable_eq_ok hv) ?_
  rw [ends_bind, ends_machine]
  split
  · cases r <;> rfl
  · rfl

theorem ends_popVariable {j : Instruction} (hj : j.variableRef = .ok r) {slot : Slot}
    {rest : List Slot} (hv : s.scalar? r = some v) (hstack : s.machine.stack = slot :: rest) :
    Ends (popVariable j) s (fun _ t => t.machine.stack = rest) fun _ _ => False := by
  let t : Session Grid := { s with machine := { s.machine with stack := rest } }
  have hpop : popOne j s = .ok slot t := by
    refine bind_eq_ok.mpr ⟨s.machine, s, rfl, ?_⟩
    rw [hstack]
    rfl
  have hassign := ends_assign (s := t) hv j (t.machine.pools.value slot)
  unfold popVariable
  rw [hj, ends_bind, ends_ofExcept_ok, ends_bind]
  refine ends_of_ok hpop ?_
  rw [ends_bind, ends_attempt, ends_bind]
  exact hassign.imp (fun _ _ h => h) fun _ _ => False.elim

theorem ends_store {slot : Slot} {rest : List Slot} (hv : s.scalar? r = some v)
    (hstack : s.machine.stack = slot :: rest) :
    Ends (dispatch ((Statement.store r).instruction 0)) s (fun _ t => t.machine.stack = rest)
      fun _ _ => False := by
  have hdispatch : (dispatch ((Statement.store r).instruction 0) : Exec Grid (Option Nat)) =
      (popVariable ((Statement.store r).instruction 0) >>= fun _ => pure none) := rfl
  rw [hdispatch, ends_bind]
  exact ends_popVariable rfl hv hstack

end Exec

namespace Session

variable {n : Nat} {r x : VariableRef} {v y : Variable} {s t : Session Grid}

theorem SameVariables.scalar?_eq (h : s.SameVariables t) (r : VariableRef) :
    t.scalar? r = s.scalar? r := by
  unfold Session.scalar?
  rw [h.locals, h.graphics]

/-- The value of a variable as a condition. -/
theorem isCondition_read (hv : s.scalar? r = some v) (htype : v.type = .float) :
    s.IsCondition n [.read r] where
  elementwise := List.forall_mem_singleton.mpr rfl
  stores := by simp [Statement.read]
  ends u hu hsu := by
    obtain ⟨w, hw, hvw⟩ := hsu.scalar? hv
    refine Exec.ends_bind.mpr ((Exec.ends_read (sameVariables_masked.scalar?_eq r ▸ hw)).imp
      (fun _ t ht => ?_) fun _ _ => False.elim)
    obtain ⟨-, slot, hslot, hslottype⟩ := ht
    exact ⟨slot, by rw [hslot]; exact congrArg _ hu.stack,
      hslottype.trans (hvw.value.type.trans htype)⟩

/-- A push and a store into a varying variable. -/
theorem isNeutral_assign {w : Statement} (hw : w.operation.code.isElementwise = true)
    (hcode : w.operation.code ≠ .popVariable)
    (hends : ∀ u : Session Grid, u.IsSized n → s.Related Variable.SameKind u →
      Exec.Ends (Exec.dispatch (w.instruction 0)) u.masked (fun _ t => u.masked.SameVariables t ∧
        ∃ slot, t.machine.stack = [slot]) fun _ _ => False)
    (hy : s.scalar? x = some y) (hvarying : y.detail = .varying) :
    s.IsNeutral n [w, .store x] where
  elementwise := List.forall_mem_cons.mpr ⟨hw, List.forall_mem_singleton.mpr rfl⟩
  stores v hv hcode' := by
    rcases List.mem_cons.mp hv with rfl | hv
    · exact absurd hcode' hcode
    · obtain rfl := List.mem_singleton.mp hv
      exact ⟨x, y, rfl, hy, hvarying⟩
  ends u hu hsu := by
    obtain ⟨z, hz, -⟩ := hsu.scalar? hy
    refine Exec.ends_bind.mpr ((hends u hu hsu).imp (fun _ t ht => ?_) fun _ _ => False.elim)
    obtain ⟨hsame, slot, hslot⟩ := ht
    have hz' : t.scalar? x = some z := by
      rw [(sameVariables_masked.trans hsame).scalar?_eq, hz]
    exact Exec.ends_bind.mpr (Exec.ends_store hz' hslot)

theorem isNeutral_copy (hv : s.scalar? r = some v) (hy : s.scalar? x = some y)
    (hvarying : y.detail = .varying) : s.IsNeutral n [.read r, .store x] := by
  refine isNeutral_assign rfl (by simp [Statement.read]) (fun u hu hsu => ?_) hy hvarying
  obtain ⟨w, hw, -⟩ := hsu.scalar? hv
  refine (Exec.ends_read (sameVariables_masked.scalar?_eq r ▸ hw)).imp (fun _ t ht => ?_)
    fun _ _ => False.elim
  obtain ⟨hsame, slot, hslot, -⟩ := ht
  exact ⟨hsame, slot, by rw [hslot]; exact congrArg _ hu.stack⟩

theorem isNeutral_set (a : Float32) (hy : s.scalar? x = some y) (hvarying : y.detail = .varying) :
    s.IsNeutral n [.constant a, .store x] := by
  refine isNeutral_assign rfl (by simp [Statement.constant]) (fun u hu _ => ?_) hy hvarying
  refine (Exec.ends_constant a u.masked).imp (fun _ t ht => ?_) fun _ _ => False.elim
  obtain ⟨hsame, slot, hslot⟩ := ht
  exact ⟨hsame, slot, by rw [hslot]; exact congrArg _ hu.stack⟩

end Session

end ShadingMachine
