import ShadingMachine.Proofs.Frame.Idle
import ShadingMachine.Proofs.Lockstep.Dispatch
import ShadingMachine.Proofs.Storage.States

/-! What the operands hold. A session is in lockstep with itself, and what is kept in lockstep is of
its type and sized to the grid: whatever an instruction reads, the slot that it puts on the stack
has data of the storage of its type, one element if it is uniform and one for each point of the grid
if it varies. -/
namespace ShadingMachine

namespace Value

variable {type : ValueType} {detail : Detail} {n b : Nat} {v : Value}

theorem IsShaped.fitted (h : v.IsShaped b) (hn : 0 < n) : (v.fitted n).IsShaped n where
  storage := by
    show Data.storage (if v.isVarying && v.size != n then v.data.resize n else v.data) = v.type.storage
    split
    · exact h.storage
    · exact h.storage
  size := by
    cases hd : v.detail with
    | varying =>
      rw [size_fitted n hd, show (v.fitted n).detail = .varying from hd, Detail.length]
      omega
    | uniform =>
      have huniform : v.isVarying = false := isVarying_eq_false_iff.mpr hd
      rw [show (v.fitted n).detail = .uniform from hd]
      show Data.size (if v.isVarying && v.size != n then v.data.resize n else v.data) = 1
      rw [huniform, Bool.false_and, if_neg (by simp)]
      exact h.size_uniform hd

end Value

namespace Session

variable {n b : Nat} {s : Session Grid}

theorem Regular.masked_fetched (h : s.Regular n b) (i : Instruction) : (s.fetched i).Masked where
  running := by rw [fetched_env]; rfl
  ones k hk := by
    have hlt := h.states.tidy_running.lt_of_mem_ones hk
    rw [h.states.size_running] at hlt
    exact h.gridSize ▸ hlt
  size := by
    show s.host.env.states.running.size ≤ s.machine.gridSize
    rw [h.states.size_running, h.gridSize]

/-- On a grid of `n` points the operands and the variables of the graphics state are of their types
and sized to the grid, and the mask is for that grid. -/
structure Typed (n b : Nat) (s : Session Grid) : Prop extends s.Regular n b where
  mask : s.machine.mask.size = n ∧ s.machine.mask.Tidy
  accounts : s.machine.Accounts
  stack : ∀ slot ∈ s.machine.stack, (s.machine.pools.value slot).IsShaped n
  graphics : ∀ x, (s.host.env.graphics.get x).toValue.OfKind x.type x.detail n

/-- All is written everywhere. -/
abbrev everywhere : Written := fun _ => .everywhere

theorem Typed.inStep (h : s.Typed n b) (hn : 0 < n) :
    InStep Eq (Value.IsShaped n) everywhere.knows [] [] s s where
  frame := rfl
  host := rfl
  fitting := by
    rw [h.gridSize]
    exact Value.fitting_shaped hn
  accounts := by simpa [Machine.Accounts] using h.accounts
  accounts' := by simpa [Machine.Accounts] using h.accounts
  hand := .nil
  stack := List.forall₂_same.mpr fun slot hslot =>
    ⟨.refl Detail.allows_eq _ _, h.stack slot hslot, h.stack slot hslot⟩
  mask := rfl

theorem Typed.supplies (h : s.Typed n b) (hn : 0 < n) : s.Supplies (Value.IsShaped n) where
  copies v hv := by
    rw [h.gridSize]
    cases hv with
    | scalar hk =>
      obtain ⟨d, -, hd⟩ := Locals.Declared.get h.declared hk
      cases hd with
      | scalar _ hshape => exact hshape.fitted hn
    | element hk hj =>
      obtain ⟨d, -, hd⟩ := Locals.Declared.get h.declared hk
      cases hd with
      | array _ _ _ ha => exact (ha _ (Array.mem_of_getElem? hj)).fitted hn
    | @graphics x _ hx =>
      obtain rfl := Option.some.inj hx
      exact (h.graphics x).fitted hn
  arrays := h.storage_elements

/-- In lockstep with itself, a session has operands of their types. -/
theorem InStep.shaped {K : Known} (h : InStep Eq (Value.IsShaped n) K [] [] s s) :
    s.machine.Accounts ∧ ∀ slot ∈ s.machine.stack, (s.machine.pools.value slot).IsShaped n :=
  ⟨by simpa [Machine.Accounts] using h.accounts, fun slot hslot =>
    (List.forall₂_same.mp h.stack slot hslot).fits⟩

end Session

namespace Exec

open Session

variable {n b : Nat} {K : Known} {hand : List Slot} {s : Session Grid}

/-- A computation beside itself. -/
theorem Paired.ends {α : Type} {x : Exec Grid α} {Q : α → Session Grid → α → Session Grid → Prop}
    (h : Paired x s x s Q) : Ends x s (fun a t => Q a t a t) fun _ _ => True := by
  unfold Paired at h
  unfold Ends
  cases hx : x s with
  | ok a t =>
    rw [hx] at h
    exact h
  | error e t => trivial

/-- What is asked of the environment is put on the stack. -/
theorem produceAs_asked {ε : Type} (type : ValueType) (detail : Detail) (args : List Slot)
    (ask : List Value → Value → Mask → Serving ε Value) (s : Session ε) :
    ∃ out : Value, out.type = type ∧ out.detail = detail ∧
      (s.machine.pools.Accounts (args + s.machine.stack) → out.IsShaped s.machine.gridSize) ∧
      ∃ vs, let answer := (ask vs out s.machine.mask).run s.host
        produceAs type detail args (asked ask) s =
          .ok () ⟨s.machine.put type detail args answer.1.data, answer.2⟩ := by
  let new := s.machine.pools.allocate type detail s.machine.gridSize
  refine ⟨new.2.value new.1, rfl, rfl, fun h => h.isShaped_allocate type detail _,
    args.map new.2.value, ?_⟩
  rw [produceAs_run]
  rfl

/-- What is asked of the environment may leave the result as it was, but keeps its kind. -/
theorem ends_produceAs_asked {slots : List Slot}
    (h : InStep Eq (Value.IsShaped n) K slots slots s s) (hn : s.machine.gridSize = n)
    (type : ValueType) (detail : Detail) {ask : List Value → Value → Mask → Serving Grid Value}
    (hask : ∀ args (out : Value) mask host, out.SameKind ((ask args out mask).run host).1) :
    Ends (produceAs type detail slots (asked ask)) s
      (fun _ t => ∃ K, InStep Eq (Value.IsShaped n) K [] [] t t) fun _ _ => True := by
  subst hn
  obtain ⟨out, htype, hdetail, hshape, vs, hrun⟩ := produceAs_asked type detail slots ask s
  have hkind := hask vs out s.machine.mask s.host
  refine ends_of_ok hrun ?_
  generalize (ask vs out s.machine.mask).run s.host = answer at hkind ⊢
  have hout := hshape h.accounts
  have hfits : Value.IsShaped s.machine.gridSize ⟨type, detail, answer.1.data⟩ :=
    ⟨hkind.storage.trans (hout.storage.trans (congrArg _ htype)),
      hkind.size.trans (hout.size.trans (congrArg (Detail.length · _) hdetail))⟩
  obtain ⟨a, _, -, -, -, -, hput⟩ := (h.serve answer.2).put (P := fun _ => True)
    (.refl Detail.allows_eq _ _) hfits hfits
  exact ⟨_, hput⟩

theorem ends_pop_asked (h : InStep Eq (Value.IsShaped n) K [] [] s s) (hn : s.machine.gridSize = n)
    (i : Instruction) (k : Nat) (type : ValueType) (detail : List Slot → Detail)
    {ask : List Value → Value → Mask → Serving Grid Value}
    (hask : ∀ args (out : Value) mask host, out.SameKind ((ask args out mask).run host).1) :
    Ends (do let slots ← pop i k; produceAs type (detail slots) slots (asked ask)) s
      (fun _ t => ∃ K, InStep Eq (Value.IsShaped n) K [] [] t t) fun _ _ => True := by
  rw [ends_bind]
  refine (paired_pop h i k).ends.imp (fun slots t ht => ?_) fun _ _ h => h
  obtain ⟨-, -, hframe, h'⟩ := ht
  exact ends_produceAs_asked h' (hframe.gridSize.trans hn) type (detail slots) hask

end Exec

end ShadingMachine
