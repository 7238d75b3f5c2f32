import ShadingMachine.Pattern.Parse
import ShadingMachine.Proofs.Slots.Accounting
import ShadingMachine.Scene.Bare

/-! Where a run ends no operand is left, and so no slot is in use. -/
namespace ShadingMachine

namespace Exec

variable {ε : Type}

theorem ends_checkBalance (kind : SegmentKind) (before : Pools) (s : Session ε) :
    Ends (checkBalance kind before) s (fun _ t => t.machine.stack = []) fun _ _ => True := by
  have hcheck (t : Session ε) (ht : t.machine.stack = []) :
      Ends (checkPools before) t (fun _ t => t.machine.stack = []) fun _ _ => True := by
    simp only [checkPools, ends_bind, ends_machine]
    split
    · trivial
    · exact ht
  unfold checkBalance
  simp only [ends_bind, ends_machine]
  split
  · split
    · trivial
    · exact hcheck _ rfl
  · rename_i hd
    exact hcheck s (List.eq_nil_of_length_eq_zero (not_not.mp hd))

variable [Environment ε]

/-- A run that is finished or fails leaves nothing on the stack. -/
theorem ends_run_stack (kind : SegmentKind) (limit : Nat) (s : Session ε) :
    Ends (run kind limit) s (fun done t => done = true → t.machine.stack = [])
      fun _ t => t.machine.stack = [] := by
  unfold run
  simp only [ends_bind, ends_machine, ends_serve, ends_modifyMachine, ends_attempt]
  refine (ends_total (steps limit)).imp (fun done t _ => ?_) fun e t _ => rfl
  cases done with
  | false => exact fun h => by cases h
  | true =>
    simp only [if_true, ends_bind]
    exact (ends_checkBalance kind _ t).imp (fun _ u hu _ => hu) fun _ _ _ => rfl

theorem ends_execute_stack (limit : Nat) (s : Session ε) :
    Ends (execute limit) s (fun done t => done = true → t.machine.stack = [])
      fun _ t => t.machine.stack = [] := by
  rw [ends_execute]
  exact ends_run_stack .code limit s.ready

omit [Environment ε] in
theorem ends_executeInit_stack (limit : Nat) (s : Session ε) :
    Ends (executeInit limit) s (fun done t => done = true → t.machine.stack = [])
      fun _ t => t.machine.stack = [] := by
  have hrun := ends_run_stack .init limit
    (⟨s.machine.alone, .fresh 0 0, s.host.log⟩ : Session Grid)
  unfold Ends at hrun ⊢
  rw [executeInit_eq]
  cases hr : run .init limit (⟨s.machine.alone, .fresh 0 0, s.host.log⟩ : Session Grid) with
  | ok done t =>
    rw [hr] at hrun
    exact hrun
  | error e t =>
    rw [hr] at hrun
    exact hrun

end Exec

namespace Machine

variable {p : Program} {c : Config} {m : Machine}

theorem Reached.accounts (h : Reached p c m) : m.Accounts :=
  h.of_closed closed_accounts Pools.accounts_empty

/-- No temporary slot is leaked, lost or shared, whatever is called and whether it succeeds; and
where a run of a segment is finished or fails, all slots are free. -/
theorem Reached.slots_accounted (h : Reached p c m) :
    m.SlotsAccounted ∧ ∀ {ε : Type} [Environment ε] (host : Host ε) (limit : Nat),
      Exec.Ends (Exec.execute limit) ⟨m, host⟩ (fun done t => done = true → t.machine.AllFree)
        (fun _ t => t.machine.AllFree) ∧
      Exec.Ends (Exec.executeInit limit) ⟨m, host⟩
        (fun done t => done = true → t.machine.AllFree) (fun _ t => t.machine.AllFree) := by
  refine ⟨h.accounts.slotsAccounted, fun host limit => ⟨?_, ?_⟩⟩
  · have ha := Exec.leaves_execute closed_accounts limit ⟨m, host⟩ h.accounts
    have hs := Exec.ends_execute_stack limit ⟨m, host⟩
    exact (Exec.ends_and.mp ⟨ha, hs⟩).imp (fun done t ht hd => ht.1.allFree (ht.2 hd))
      fun e t ht => ht.1.2.allFree ht.2
  · have ha := Exec.leaves_executeInit closed_accounts limit ⟨m, host⟩ h.accounts
    have hs := Exec.ends_executeInit_stack limit ⟨m, host⟩
    exact (Exec.ends_and.mp ⟨ha, hs⟩).imp (fun done t ht hd => ht.1.allFree (ht.2 hd))
      fun e t ht => ht.1.2.allFree ht.2

/-- The sine of a text fails, and its slot is free again before the run is given up. -/
theorem Reached.slots_accounted_sine_of_text :
    let code : Segment := ⟨#[.opcode "pushis" ⟨.pushString, [.string]⟩, .string "x",
      .opcode "sin" ⟨.math .sin, []⟩], []⟩
    let p : Program := ⟨.surface, "1", ⟨0⟩, #[], .empty, code⟩
    let failed := ((do let _ ← Exec.execute 0; Exec.steps 2).after
      (⟨.fresh p .standard, .fresh 0 0 [], #[]⟩ : Session Bare)).machine
    failed.SlotsAccounted ∧ (failed.pools.get .string .uniform).free = [0] :=
  ⟨(slots_accounted (.inCode _ 2 .fresh)).1, rfl⟩

end Machine

end ShadingMachine
