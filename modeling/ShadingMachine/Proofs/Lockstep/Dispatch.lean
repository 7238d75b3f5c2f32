import ShadingMachine.Machine.Flow
import ShadingMachine.Proofs.Lockstep.Access
import ShadingMachine.Proofs.Lockstep.Services

/-! One instruction in two sessions in lockstep. It is said of each where it reads its operands and
where its result is written. An instruction that reads only what is known keeps the sessions in
lockstep, and its result is known where it is written: what a slot held before it was handed out
makes no difference. Where the conditions agree at the running points both sessions go the same
way. -/
namespace ShadingMachine

namespace Exec

open Session

variable {ε : Type} [Environment ε] {V : Value → Prop} {K : Known} {s t : Session ε}

theorem paired_modifyStates (h : InStep Eq V K [] [] s t) {f g : RunningStates → RunningStates}
    (hfg : f (Environment.states s.host.env) = g (Environment.states s.host.env)) :
    Paired (modifyStates f) s (modifyStates g) t fun _ s' _ t' => InStep Eq V K [] [] s' t' := by
  have hserve := h.serve { s.host with
    env := Environment.setStates s.host.env (f (Environment.states s.host.env)) }
  show InStep Eq V K [] [] _ { t with host := { t.host with
    env := Environment.setStates t.host.env (g (Environment.states t.host.env)) } }
  rw [h.host, ← hfg]
  exact hserve

theorem paired_jumpIf (h : InStep Eq V K [] [] s t) (i : Instruction) (p : RunningStates → Bool) :
    Paired (jumpIf i p) s (jumpIf i p) t fun a s' b t' => a = b ∧ InStep Eq V K [] [] s' t' := by
  unfold jumpIf
  refine Paired.ofExcept_bind h.sameOutside fun target _ => ?_
  rw [paired_environment_bind, h.host]
  exact ⟨rfl, h⟩

omit [Environment ε] in
/-- A condition is read at the running points. -/
theorem agrees_congr {v w : Value} {P : Nat → Prop} (h : v.Agrees Eq P w) (want : Bool)
    {mask : Mask} (hP : ∀ k ∈ mask.ones, P k) : agrees v want mask = agrees w want mask := by
  cases hd : v.detail with
  | uniform => rw [h.eq_of_detail hd]
  | varying =>
    have hget {k : Nat} (hk : k ∈ mask.ones) : v.getFloat k = w.getFloat k := h.get k (hP k hk) .float
    have hvarying : w.isVarying = v.isVarying := congrArg Detail.isVarying h.detail.symm
    have hv : v.isVarying = true := by simp [Value.isVarying, hd, Detail.isVarying]
    unfold agrees
    simp only [hvarying, hv, Bool.not_true, Bool.false_eq_true, if_false]
    split
    · rfl
    · rw [Bool.eq_iff_iff, List.all_eq_true, List.all_eq_true]
      exact forall₂_congr fun k hk => by rw [hget hk]

omit [Environment ε] in
theorem paired_jumpOn (h : InStep Eq V K [] [] s t) (i : Instruction) (want : Bool)
    (hreads : s.Reads K [s.machine.mask.ones]) :
    Paired (jumpOn i want) s (jumpOn i want) t fun a s' b t' =>
      a = b ∧ InStep Eq V K [] [] s' t' := by
  unfold jumpOn
  refine Paired.ofExcept_bind h.sameOutside fun target _ => ?_
  refine (paired_popKnown h i hreads).bind fun v s' w t' h' => ?_
  obtain ⟨hvw, hframe, h'⟩ := h'
  rw [paired_machine_bind, h'.mask, hframe.mask, agrees_congr hvw want fun _ hk => hk]
  exact ⟨rfl, h'⟩

theorem paired_leaveScope (h : InStep Eq V K [] [] s t) (i : Instruction) :
    Paired (leaveScope i) s (leaveScope i) t fun _ s' _ t' => InStep Eq V K [] [] s' t' := by
  unfold leaveScope
  rw [paired_environment_bind, h.host]
  cases (Environment.states s.host.env).pop? with
  | none => exact paired_throw _ h.sameOutside
  | some r => exact paired_modifyStates h rfl

theorem paired_setCurrent (h : InStep Eq V K [] [] s t) (i : Instruction)
    (hmask : s.machine.mask = (Environment.states s.host.env).running)
    (hreads : s.Reads K [s.machine.mask.ones]) :
    Paired (setCurrent i) s (setCurrent i) t fun _ s' _ t' => InStep Eq V K [] [] s' t' := by
  unfold setCurrent
  refine (paired_popKnown h i hreads).bind fun v s' w t' h' => ?_
  obtain ⟨hvw, hframe, h'⟩ := h'
  refine paired_modifyStates h' ?_
  unfold RunningStates.setCurrent
  have hfilter : (Environment.states s'.host.env).running.ones.filter
        (fun k => Scalar.holds (v.getFloat k)) =
      (Environment.states s'.host.env).running.ones.filter
        (fun k => Scalar.holds (w.getFloat k)) :=
    List.filter_congr fun k hk => by
      rw [hframe.host, ← hmask] at hk
      rw [show v.getFloat k = w.getFloat k from hvw.get k hk .float]
  rw [hfilter]

/-- The operands that control flow reads. -/
def readsCondition : Flow → Bool
  | .jumpFalse | .jumpTrue | .setCurrent => true
  | _ => false

theorem paired_flow (h : InStep Eq V K [] [] s t) (i : Instruction) (f : Flow)
    (hmask : s.machine.mask = (Environment.states s.host.env).running)
    (hreads : readsCondition f = true → s.Reads K [s.machine.mask.ones]) :
    Paired (flow i f) s (flow i f) t fun a s' b t' => a = b ∧ InStep Eq V K [] [] s' t' := by
  have hgo {x : Exec ε Unit} (hx : Paired x s x t fun _ s' _ t' => InStep Eq V K [] [] s' t') :
      Paired (do x; return (none : Option Nat)) s (do x; return (none : Option Nat)) t
        fun a s' b t' => a = b ∧ InStep Eq V K [] [] s' t' :=
    hx.bind fun _ _ _ _ h' => ⟨rfl, h'⟩
  unfold flow
  cases f with
  | enterScope | selectCurrent | invertScope | clearCurrent => exact hgo (paired_modifyStates h rfl)
  | leaveScope => exact hgo (paired_leaveScope h i)
  | setCurrent => exact hgo (paired_setCurrent h i hmask (hreads rfl))
  | jumpNoCurrent | jumpAllCurrent | jumpNoRunning | jumpAllRunning => exact paired_jumpIf h i _
  | jumpFalse | jumpTrue => exact paired_jumpOn h i _ (hreads rfl)
  | jump => exact Paired.ofExcept_bind h.sameOutside fun target _ => ⟨rfl, h⟩

end Exec

/-- Where a slot has been written since it was handed out. -/
inductive Extent where
  | everywhere
  | only (points : List Nat)

def Extent.Covers : Extent → Nat → Prop
  | everywhere, _ => True
  | only points, k => k ∈ points

instance (e : Extent) (k : Nat) : Decidable (e.Covers k) := by
  cases e <;> unfold Extent.Covers <;> infer_instance

abbrev Written := Slot → Extent

/-- A uniform slot is written whole, and a varying one is known where it has been written. -/
def Written.knows (w : Written) : Known := fun slot k => slot.detail = .uniform ∨ (w slot).Covers k

instance (w : Written) (slot : Slot) (k : Nat) : Decidable (w.knows slot k) :=
  inferInstanceAs (Decidable (_ ∨ _))

/-- Whether the grid can fill what the opcode yields. -/
def Opcode.Fills : Opcode → Prop
  | .service f => f.Fills
  | _ => True

instance (code : Opcode) : Decidable code.Fills := by
  cases code <;> unfold Opcode.Fills <;> infer_instance

namespace Session

/-- The points at which an instruction reads its operands, the top one first. -/
def reading (s : Session Grid) (code : Opcode) : List (List Nat) :=
  let running := s.machine.mask.ones
  match code with
  | .flow f => if Exec.readsCondition f then [running] else []
  | .popVariable | .pushElement => [running]
  | .popElement => [running, running]
  | .string .printf => [0] :: List.replicate (s.count + 1) running
  | .string .matchPattern => [running, running]
  | .service f => f.reading s.host.env s.machine.mask
  | .illumination f => f.reading s.host.env s.machine.mask
  | code =>
    if code.isComputation then
      (if code.takesCount then [[0]] else []) ++ List.replicate (code.arity s.count) running
    else []

/-- Where the result of an instruction is written, if it leaves one. -/
def result (s : Session Grid) (w : Written) : Opcode → Option Extent
  | .nop | .drop | .debugBreak | .popVariable | .popElement | .flow _ | .string .printf => none
  | .pushFloat | .pushString | .pushPoint | .pushVariable => some .everywhere
  | .dup => s.machine.stack.head?.map w
  | .pushElement => s.machine.stack.head?.map fun index =>
    if index.detail = .uniform then .everywhere else .only s.machine.mask.ones
  | _ => some (.only s.machine.mask.ones)

/-- What is written of the slots after an instruction has led from one session to another. -/
def written (s : Session Grid) (w : Written) (code : Opcode) (s' : Session Grid) : Written :=
  match s.result w code, s'.machine.stack with
  | some e, top :: _ => Function.update w top e
  | _, _ => w

/-- Every operand is read only where it has been written. -/
def Legible (s : Session Grid) (w : Written) (code : Opcode) : Prop :=
  s.Reads w.knows (s.reading code) ∧ code.Fills

instance (K : Known) [∀ slot k, Decidable (K slot k)] (s : Session Grid) (points : List (List Nat)) :
    Decidable (s.Reads K points) :=
  inferInstanceAs (Decidable (∀ p ∈ s.machine.stack.zip points, ∀ k ∈ p.2, K p.1 k))

instance (s : Session Grid) (w : Written) (code : Opcode) : Decidable (s.Legible w code) :=
  inferInstanceAs (Decidable (_ ∧ _))

/-- The mask is that of the running points, and fits the grid. -/
structure Masked (s : Session Grid) : Prop where
  running : s.machine.mask = s.host.env.states.running
  ones : ∀ k ∈ s.machine.mask.ones, k < s.machine.gridSize
  size : s.machine.mask.size ≤ s.machine.gridSize

variable {V : Value → Prop} {w : Written} {s t s' t' : Session Grid} {code : Opcode}

theorem Yields.written {P : Nat → Prop} (h : Yields V w.knows P s' t') {e : Extent}
    (hr : s.result w code = some e) (hP : ∀ k, e.Covers k → P k) :
    InStep Eq V (s.written w code s').knows [] [] s' t' := by
  obtain ⟨a, rest, hs, hstep⟩ := h
  refine hstep.uniform fun slot k hk => ?_
  unfold Session.written at hk
  rw [hr, hs] at hk
  refine hk.imp id fun hcovers => ?_
  by_cases hslot : slot = a
  · subst hslot
    simp only [Function.update_self] at hcovers ⊢
    exact hP k hcovers
  · simp only [Function.update_of_ne hslot] at hcovers ⊢
    exact .inr hcovers

theorem InStep.written (h : InStep Eq V w.knows [] [] s' t') (hr : s.result w code = none) :
    InStep Eq V (s.written w code s').knows [] [] s' t' := by
  unfold Session.written
  rw [hr]
  exact h

theorem reading_of_isComputation (h : code.isComputation = true) : s.reading code =
    (if code.takesCount then [[0]] else []) ++
      List.replicate (code.arity s.count) s.machine.mask.ones := by
  cases code with
  | string f => cases f <;> first | rfl | cases h
  | flow f | service f | illumination f | popVariable | pushElement | popElement => cases h
  | _ =>
    unfold reading
    simp only [h, if_true]

theorem result_of_isComputation (h : code.isComputation = true) :
    s.result w code = some (.only s.machine.mask.ones) := by
  cases code with
  | string f => cases f <;> first | rfl | cases h
  | nop | dup | drop | debugBreak | pushFloat | pushString | pushPoint | pushVariable | pushElement
  | popVariable | popElement | flow => cases h
  | _ => rfl

end Session

namespace Exec

open Session

variable {V : Value → Prop} {w : Written} {s t : Session Grid}

theorem paired_elementwise_written (h : InStep Eq V w.knows [] [] s t) (hs : s.Masked)
    (i : Instruction) (hcode : i.code.isComputation = true) (hlegible : s.Legible w i.code) :
    Paired (dispatch i) s (dispatch i) t fun r s' r' t' =>
      r = r' ∧ InStep Eq V (s.written w i.code s').knows [] [] s' t' := by
  have hreads := hlegible.1
  rw [reading_of_isComputation hcode] at hreads
  obtain ⟨hcount, hknown⟩ : (i.code.takesCount = true →
        ∀ slot ∈ s.machine.stack.head?, w.knows slot 0) ∧
      ∀ a ∈ s.inputs i.code, ∀ k ∈ s.machine.mask.ones, w.knows a k := by
    unfold inputs underCount
    cases hc : i.code.takesCount with
    | true =>
      rw [hc] at hreads
      exact ⟨fun _ => hreads.counted.1, hreads.counted.2⟩
    | false =>
      rw [hc] at hreads
      exact ⟨fun hno => (by cases hno), reads_replicate hreads⟩
  refine (paired_elementwise Detail.allows_eq h i hcode hcount
    fun a ha k hk => hknown a ha k hk.1).imp fun r s' r' t' hp => ?_
  obtain ⟨rfl, rfl, hp⟩ := hp
  exact ⟨rfl, hp.yields.written (result_of_isComputation hcode) fun k hk => ⟨hk, hs.ones k hk⟩⟩

/-- An instruction that reads its operands only where they have been written keeps two sessions in
lockstep, with its result written. -/
theorem paired_dispatch (h : InStep Eq V w.knows [] [] s t) (hV : s.Supplies V) (hs : s.Masked)
    (i : Instruction) (hlegible : s.Legible w i.code) :
    Paired (dispatch i) s (dispatch i) t fun r s' r' t' =>
      r = r' ∧ InStep Eq V (s.written w i.code s').knows [] [] s' t' := by
  by_cases hcode : i.code.isComputation = true
  · exact paired_elementwise_written h hs i hcode hlegible
  obtain ⟨hreads, hfills⟩ := hlegible
  have hrule : i.code.rule? = none := by
    cases hrule : i.code.rule? with
    | none => rfl
    | some r => exact absurd (Opcode.isComputation_of_rule hrule) hcode
  unfold dispatch
  rw [hrule]
  dsimp only
  generalize i.code = code at hreads hfills hcode hrule ⊢
  -- an instruction with a result, and one without
  have hyields {x : Exec Grid Unit} {e : Extent} {P : Nat → Prop}
      (hr : s.result w code = some e) (hP : ∀ k, e.Covers k → P k)
      (hx : Paired x s x t fun _ s' _ t' => Yields V w.knows P s' t') :
      Paired (do x; return (none : Option Nat)) s (do x; return (none : Option Nat)) t
        fun r s' r' t' => r = r' ∧ InStep Eq V (s.written w code s').knows [] [] s' t' :=
    hx.bind fun _ _ _ _ hp => ⟨rfl, hp.written hr hP⟩
  have hleaves {x : Exec Grid Unit} (hr : s.result w code = none)
      (hx : Paired x s x t fun _ s' _ t' => InStep Eq V w.knows [] [] s' t') :
      Paired (do x; return (none : Option Nat)) s (do x; return (none : Option Nat)) t
        fun r s' r' t' => r = r' ∧ InStep Eq V (s.written w code s').knows [] [] s' t' :=
    hx.bind fun _ _ _ _ hp => ⟨rfl, hp.written hr⟩
  have heverywhere {x : Exec Grid Unit} {rest rest' : List Slot}
      (hr : s.result w code = some .everywhere)
      (hx : Paired x s x t fun _ s' _ t' => ∃ detail,
        Pushed Eq V w.knows (fun _ => True) detail detail rest rest' s' t') :=
    hyields hr (fun _ hk => hk) (hx.imp fun _ _ _ _ hp => hp.elim fun _ hp => hp.yields)
  have hrunning {x : Exec Grid Unit} (hr : s.result w code = some (.only s.machine.mask.ones)) :=
    hyields (x := x) (P := (· ∈ s.machine.mask.ones)) hr fun _ hk => hk
  cases code with
  | flow f =>
    refine (paired_flow h i f hs.running fun hf => ?_).imp fun _ _ _ _ hp => ⟨hp.1, hp.2.written rfl⟩
    unfold reading at hreads
    simpa only [hf, if_true] using hreads
  | nop => exact ⟨rfl, h.written rfl⟩
  | dup =>
    refine (paired_dup h i).bind fun _ s' _ t' hp => ⟨rfl, ?_⟩
    obtain ⟨top, rest, rest', hstack, hp⟩ := hp
    exact hp.yields.written (by rw [result, hstack]; rfl) fun k hk => .inr hk
  | drop =>
    exact (paired_popOne h i).bind fun _ _ _ _ h' => ⟨rfl, h'.2.2.2.2.release.written rfl⟩
  | debugBreak => exact hleaves rfl ((paired_serve h _).imp fun _ _ _ _ h' => h'.2.2.2)
  | pushFloat =>
    exact Paired.ofExcept_bind h.sameOutside fun x _ => heverywhere rfl
      ((paired_pushUniform h .float x).imp fun _ _ _ _ hp => ⟨_, hp⟩)
  | pushString =>
    exact Paired.ofExcept_bind h.sameOutside fun x _ => heverywhere rfl
      ((paired_pushUniform h .string x).imp fun _ _ _ _ hp => ⟨_, hp⟩)
  | pushPoint =>
    exact Paired.ofExcept_bind h.sameOutside fun x _ => Paired.ofExcept_bind h.sameOutside
      fun y _ => Paired.ofExcept_bind h.sameOutside fun z _ => heverywhere rfl
        ((paired_pushUniform h .point ⟨x, y, z⟩).imp fun _ _ _ _ hp => ⟨_, hp⟩)
  | pushVariable => exact heverywhere rfl (paired_pushVariable h hV i)
  | pushElement =>
    refine (paired_pushElement h hV i hreads).bind fun _ s' _ t' hp => ⟨rfl, ?_⟩
    obtain ⟨index, rest, rest', detail, hstack, hp⟩ := hp
    refine hp.yields.written (by rw [result, hstack]; rfl) fun k hk hv => ?_
    dsimp only at hk
    rwa [if_neg (by simp [hv])] at hk
  | popVariable => exact hleaves rfl (paired_popVariable h hs.size i hreads)
  | popElement => exact hleaves rfl (paired_popElement h hs.size i hreads)
  | math f | geometry f => exact absurd rfl hcode
  | string f =>
    cases f with
    | concat | format => exact absurd rfl hcode
    | printf => exact hleaves rfl (paired_printFormat h i hreads)
    | matchPattern => exact hrunning rfl (paired_matchPattern h i hs.ones hreads)
  | service f => exact hrunning rfl (paired_service h i hs.ones hs.size f hfills hreads)
  | illumination f => exact hrunning rfl (paired_illumination h i hs.ones f hreads)
  | merge | buildTriple | buildColor | buildMatrix | ofFloat | tripleToColor | colorToTriple
  | arithmetic | dot | cross | negate | compare | and | or | not => cases hrule

end Exec

end ShadingMachine
