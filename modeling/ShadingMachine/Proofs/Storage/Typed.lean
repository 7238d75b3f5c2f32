import ShadingMachine.Proofs.Slots.Balance
import ShadingMachine.Proofs.Storage.Operands
import ShadingMachine.Proofs.Storage.States

/-! Sessions whose operands are of their types stay so from instruction to instruction. Where an
instruction fails in the middle of its work operands may be lost, but what it leaves is of its types
again as soon as the stack is cleared. -/
namespace ShadingMachine

namespace Grid

variable {type : ValueType} {detail : Detail}

/-- Also where a result cannot hold noise. -/
theorem sameKind_noise (cells : Bool) (args : List Value) (out : Value) (mask : Mask)
    (h : Host Grid) :
    out.SameKind ((Environment.noise cells args out mask : Serving Grid Value).run h).1 := by
  show out.SameKind (noise cells args out mask)
  unfold noise
  dsimp only
  split <;> exact out.sameKind_write _ mask _

/-- By induction on the points; what is drawn may not fit the result. -/
theorem sameKind_drawAt (out : Value) (points : List Nat) (seed : UInt64) :
    out.SameKind ((drawAt out points).run seed).1 := by
  induction points generalizing out seed with
  | nil => exact .refl out
  | cons i points ih =>
    rw [drawAt_cons rfl, StateT.run_bind]
    exact (out.sameKind_set _ i _).trans (ih _ _)

theorem sameKind_texture (kind : TextureKind) (name channel out : Value) (mask : Mask)
    (h : Host Grid) : out.SameKind ((texture kind name channel out mask).run h).1 := by
  unfold texture
  rw [StateT.run_bind, StateT.run_get, pure_bind]
  dsimp only
  split
  · split
    · exact out.sameKind_write _ mask _
    · exact out.sameKind_write _ mask _
  · split
    · exact out.sameKind_write _ mask _
    · exact out.sameKind_write _ mask _

end Grid

namespace Session

/-- Without its operands. -/
def cleared {ε : Type} (s : Session ε) : Session ε := { s with machine := s.machine.clearStack }

variable {n b : Nat} {s t : Session Grid}

theorem Typed.cleared (h : s.Typed n b) : s.cleared.Typed n b where
  gridSize := h.gridSize
  declared := h.declared
  states := h.states
  mask := h.mask
  accounts := h.accounts.clearStack
  stack _ hslot := nomatch hslot
  graphics := h.graphics

theorem Typed.fetched (h : s.Typed n b) (i : Instruction) : (s.fetched i).Typed n b where
  toRegular := h.toRegular.fetched i
  mask := ⟨h.states.size_running, h.states.tidy_running⟩
  accounts := h.accounts
  stack := h.stack
  graphics x := by
    rw [fetched_env]
    exact h.graphics x

theorem Typed.started (h : s.Typed n b) (kind : SegmentKind) : (Exec.started s kind).Typed n b where
  toRegular := h.toRegular.started kind
  mask := h.mask
  accounts := h.accounts
  stack := h.stack
  graphics := h.graphics

end Session

namespace Exec

open Session

variable {n b : Nat} {K : Known} {s : Session Grid}

/-- The services whose results the grid may be unable to fill leave the slot of the result with its
kind. -/
theorem ends_service_unfilled (h : InStep Eq (Value.IsShaped n) K [] [] s s)
    (hn : s.machine.gridSize = n) (i : Instruction) {f : Service} (hf : ¬f.Fills) :
    Ends (service i f) s (fun _ t => ∃ K, InStep Eq (Value.IsShaped n) K [] [] t t)
      fun _ _ => True := by
  have hlookUp (kind : TextureKind) (args : List Value) (out : Value) (mask : Mask)
      (host : Host Grid) : out.SameKind ((askTexture kind args out mask).run host).1 := by
    unfold askTexture
    split
    · exact Grid.sameKind_texture kind _ _ out mask host
    · exact .refl out
  have hnoise (cells : Bool) (type : ValueType) (k : Nat) :=
    ends_pop_asked h hn i k type (fun slots => Detail.joinAll (slots.map (·.detail)))
      (Grid.sameKind_noise cells)
  cases f with
  | noise type dimensions => exact hnoise false type _
  | cellNoise type dimensions => exact hnoise true type _
  | texture type coordinates =>
    exact ends_pop_asked h hn i _ type (fun _ => .varying) (hlookUp .texture)
  | surroundings type => exact ends_pop_asked h hn i _ type (fun _ => .varying) (hlookUp .surroundings)
  | random type =>
    exact ends_produceAs_asked h hn type .varying fun _ out mask host =>
      Grid.sameKind_drawAt out (out.points mask) host.env.seed
  | _ => exact absurd trivial hf

/-- Whatever an instruction reads, what it leaves on the stack is of its type. -/
theorem ends_dispatch_shaped (h : s.Typed n b) (hn : 0 < n) (hmasked : s.Masked) (i : Instruction) :
    Ends (dispatch i) s (fun _ t => ∃ K, InStep Eq (Value.IsShaped n) K [] [] t t)
      fun _ _ => True := by
  have hreads : s.Reads everywhere.knows (s.reading i.code) := fun _ _ _ _ => .inr trivial
  by_cases hfills : i.code.Fills
  · exact (paired_dispatch (h.inStep hn) (h.supplies hn) hmasked i ⟨hreads, hfills⟩).ends.imp
      (fun _ _ hp => ⟨_, hp.2⟩) fun _ _ ht => ht
  · cases hcode : i.code with
    | service f =>
      rw [hcode] at hfills
      unfold dispatch
      rw [hcode]
      dsimp only [Opcode.rule?]
      rw [ends_bind]
      exact (ends_service_unfilled (h.inStep hn) h.gridSize i hfills).imp (fun _ _ ht => ht)
        fun _ _ ht => ht
    | _ =>
      rw [hcode] at hfills
      exact absurd trivial hfills

/-- No instruction changes the mask or the kind of a variable. -/
theorem ends_dispatch_kinds (i : Instruction) (s : Session Grid) :
    Ends (dispatch i) s (fun _ t => Kept (fun _ => False) 0 s.machine.mask s t)
      fun _ t => Kept (fun _ => False) 0 s.machine.mask s t :=
  preserves_dispatch (quiet_kept _ 0 _ s) i (permits_kept (fun _ hd => hd.elim) i) s
    ⟨rfl, refl_of (Session.Related (Variable.KeepsAt (fun _ => False) 0)) s⟩

theorem ends_dispatch_typed (h : s.Typed n b) (hn : 0 < n) (hmasked : s.Masked) (i : Instruction) :
    Ends (dispatch i) s (fun _ t => t.Typed n b) fun _ t => t.cleared.Typed n b := by
  have haccounts := keeps_dispatch stable_accounts (i := i) (fun _ _ => trivial)
    (fun _ _ _ _ _ => trivial : Readable _ (fun _ => True) i) 0 s
    (by rw [Multiset.zero_add]; exact h.accounts)
  simp only [Multiset.zero_add] at haccounts
  have hkept {t : Session Grid} (ht : Kept (fun _ => False) 0 s.machine.mask s t) :
      (t.machine.mask.size = n ∧ t.machine.mask.Tidy) ∧
        ∀ x, (t.host.env.graphics.get x).toValue.OfKind x.type x.detail n :=
    ⟨ht.mask ▸ h.mask, fun x => (h.graphics x).sameKind (ht.related.graphics x).value.toSameKind⟩
  have hall := ends_and.mp ⟨regular_dispatch h.toRegular i, ends_and.mp ⟨haccounts,
    ends_and.mp ⟨ends_dispatch_kinds i s, ends_dispatch_shaped h hn hmasked i⟩⟩⟩
  refine hall.imp (fun _ t ht => ?_) fun _ t ht => ?_
  · obtain ⟨hregular, ha, hk, K, hshaped⟩ := ht
    exact ⟨hregular, (hkept hk).1, ha, hshaped.shaped.2, (hkept hk).2⟩
  · obtain ⟨hregular, ⟨-, ha⟩, hk, -⟩ := ht
    exact ⟨⟨hregular.gridSize, hregular.declared, hregular.states⟩, (hkept hk).1,
      Machine.Accounts.clearStack ha, fun _ hslot => (nomatch hslot), (hkept hk).2⟩

theorem ends_step_typed (h : s.Typed n b) (hn : 0 < n) :
    Ends step s (fun _ t => t.Typed n b) fun _ t => t.cleared.Typed n b := by
  refine ends_step h (fun _ _ => h.cleared) fun i _ => ?_
  refine (ends_dispatch_typed (h.fetched i) hn (h.toRegular.masked_fetched i) i).imp
    (fun target? t ht => ?_) fun _ _ ht => ht
  rw [ends_proceed]
  split
  · exact ht
  · split
    · exact ht.cleared
    · exact ⟨⟨ht.gridSize, ht.declared, ht.states⟩, ht.mask, ht.accounts, ht.stack, ht.graphics⟩

/-- By induction on the number of steps. -/
theorem ends_steps_typed (limit : Nat) (h : s.Typed n b) (hn : 0 < n) :
    Ends (steps limit) s (fun _ t => t.Typed n b) fun _ t => t.cleared.Typed n b := by
  induction limit generalizing s with
  | zero => exact h
  | succ limit ih =>
    unfold steps
    rw [ends_bind]
    refine (ends_step_typed h hn).imp (fun more t ht => ?_) fun _ _ ht => ht
    cases more with
    | true => exact ih ht
    | false => exact ht

theorem ends_checkBalance_typed (h : s.Typed n b) (kind : SegmentKind) (before : Pools) :
    Ends (checkBalance kind before) s (fun _ t => t.Typed n b) fun _ t => t.cleared.Typed n b := by
  have hcheck {t : Session Grid} (ht : t.Typed n b) :
      Ends (checkPools before) t (fun _ t => t.Typed n b) fun _ t => t.cleared.Typed n b := by
    simp only [checkPools, ends_bind, ends_machine]
    split
    · exact ht.cleared
    · exact ht
  unfold checkBalance
  simp only [ends_bind, ends_machine]
  split
  · split
    · exact h.cleared
    · have hnoted (text : String) :
          Session.Typed n b { s with host := s.host.note .warn text } :=
        ⟨⟨h.gridSize, h.declared, h.states⟩, h.mask, h.accounts, h.stack, h.graphics⟩
      exact hcheck (hnoted _).cleared
  · exact hcheck h

/-- An error leaves no operand, and neither does a run that is finished. -/
theorem ends_run_typed (h : s.Typed n b) (hn : 0 < n) (kind : SegmentKind) (limit : Nat) :
    Ends (run kind limit) s (fun done t => t.Typed n b ∧ (done = true → t.machine.stack = []))
      fun _ t => t.Typed n b ∧ t.machine.stack = [] := by
  have htyped : Ends (run kind limit) s (fun _ t => t.Typed n b) fun _ t => t.Typed n b := by
    unfold run
    simp only [ends_bind, ends_machine, ends_serve, ends_modifyMachine, ends_attempt]
    refine (ends_steps_typed limit (h.started kind) hn).imp (fun done t ht => ?_) fun _ _ ht => ht
    cases done with
    | false => exact ht
    | true =>
      simp only [if_true, ends_bind]
      exact (ends_checkBalance_typed ht kind _).imp (fun _ _ hu => hu) fun _ _ hu => hu
  exact ends_and.mp ⟨htyped, ends_run_stack kind limit s⟩

end Exec

end ShadingMachine
