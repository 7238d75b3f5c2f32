import ShadingMachine.Proofs.Execution.Moves
import ShadingMachine.Proofs.Execution.Outcome

/-! What a run does to its environment. An instruction changes the environment only by asking it, by
assigning to a variable of the graphics state and by setting the states of the points; what none of
these takes away is still there after a step, also after one that fails. -/
namespace ShadingMachine.Exec

variable {ε α β : Type} {P : ε → Prop}

/-- Whichever way it ends, the computation leaves the environment with the property. -/
def Guards (P : ε → Prop) (x : Exec ε α) : Prop :=
  ∀ s, P s.host.env → Ends x s (fun _ t => P t.host.env) fun _ t => P t.host.env

theorem guards_pure (a : α) : Guards P (pure a : Exec ε α) := fun _ h => h

theorem guards_throw (e : ExecError) : Guards P (throw e : Exec ε α) := fun _ h => h

theorem guards_machine : Guards P (machine : Exec ε Machine) := fun _ h => h

theorem guards_environment : Guards P (environment : Exec ε ε) := fun _ h => h

theorem guards_modifyMachine (f : Machine → Machine) : Guards P (modifyMachine f : Exec ε Unit) :=
  fun _ h => h

theorem guards_ofExcept (x : Except ExecError α) : Guards P (ofExcept x : Exec ε α) :=
  fun _ h => ends_ofExcept.mpr ⟨fun _ _ => h, fun _ _ => h⟩

theorem guards_serve {x : Serving ε α} (hx : x.Keeps P) : Guards P (serve x) := fun s h => hx s.host h

theorem Guards.bind {x : Exec ε α} {f : α → Exec ε β} (hx : Guards P x)
    (hf : ∀ a, Guards P (f a)) : Guards P (x >>= f) := fun s h =>
  ends_bind.mpr ((hx s h).imp (fun a t ht => hf a t ht) fun _ _ he => he)

theorem guards_readArray (r : VariableRef) :
    Guards P (readArray r : Exec ε (Nat × VariableArray)) := by
  cases r with
  | declared k => exact guards_machine.bind fun m => (guards_ofExcept _).bind fun _ => guards_pure _
  | graphics x => exact guards_throw _

theorem guards_warn (i : Instruction) (text : String) : Guards P (warn i text : Exec ε Unit) :=
  guards_serve (Serving.keeps_note _ _)

theorem guards_storeElement (i : Instruction) (r : VariableRef) (source index : Value) :
    Guards P (storeElement i r source index : Exec ε Unit) := by
  refine (guards_readArray r).bind fun found => guards_machine.bind fun m => ?_
  obtain ⟨k, a⟩ := found
  dsimp only
  split
  · refine (guards_ofExcept _).bind fun j => ?_
    split
    · split
      · exact guards_modifyMachine _
      · exact guards_warn i _
    · exact guards_pure _
  split
  · exact guards_warn i _
  split
  · exact guards_warn i _
  · exact (guards_modifyMachine _).bind fun _ => guards_ofExcept _

variable [Environment ε]

theorem blind_guards (hP : Environment.KeepsInPlace P) : Blind P (Guards P) where
  pure := guards_pure
  throw := guards_throw
  bind := Guards.bind
  attempt hx s h := ends_attempt.mpr (hx s h)
  reads _ hf := guards_machine.bind hf
  operands _ := guards_modifyMachine _
  allocate _ _ _ h := h
  environment := guards_environment
  serve := guards_serve
  modifyStates _ _ h := hP.setStates _ h

theorem guards_readVariable (r : VariableRef) : Guards P (readVariable r : Exec ε Variable) := by
  cases r with
  | declared k => exact guards_machine.bind fun m => guards_ofExcept _
  | graphics x =>
    refine guards_environment.bind fun env => ?_
    split
    · exact guards_pure _
    · exact guards_throw _

variable (hP : Environment.KeepsInPlace P)
include hP

theorem guards_loadElement (r : VariableRef) (index : Value) :
    Guards P (loadElement r index : Exec ε Unit) := by
  have hG := blind_guards hP
  refine (guards_readArray r).bind fun found => ?_
  obtain ⟨k, a⟩ := found
  show Guards P (if index.isVarying then _ else _)
  split
  · refine (hG.allocate a.type .varying).bind fun slot => guards_machine.bind fun m => ?_
    refine (hG.value slot).bind fun out => (hG.store slot _).bind fun _ => ?_
    split
    · exact hG.push slot
    · exact (hG.release [slot]).bind fun _ => guards_throw _
  · refine (guards_ofExcept _).bind fun j => ?_
    split
    · exact hG.pushCopy _
    · exact guards_pure _

theorem guards_assign (i : Instruction) (r : VariableRef) (source : Value) :
    Guards P (assign i r source : Exec ε Unit) := by
  refine (guards_readVariable r).bind fun v => guards_machine.bind fun m => ?_
  split
  · cases r with
    | declared k => exact fun _ h => h
    | graphics x => exact fun _ h => hP.setVariable x _ h
  · exact guards_warn i _

theorem guards_query (i : Instruction) {ask : String → Variable → Serving ε (Option Variable)}
    (h : ∀ name v, (ask name v).Keeps P) : Guards P (query i ask) := by
  have hG := blind_guards hP
  refine (guards_ofExcept _).bind fun r => (hG.popValue i).bind fun v => ?_
  refine (guards_readVariable r).bind fun dest => guards_machine.bind fun m => ?_
  refine (guards_serve (h _ _)).bind fun found => ?_
  have hp := hG.pushUniform .float (Scalar.ofBool found.isSome : Float32)
  cases found with
  | none => exact hp
  | some v => exact (guards_assign hP i r _).bind fun _ => hp

theorem accesses_guards (i : Instruction) : Accesses (Guards P) i := by
  have hG := blind_guards hP
  refine ⟨fun _ => ?_, fun _ => ?_, fun _ => ?_, fun _ => ?_,
    fun _ => guards_query hP i hP.attributeOf, fun _ => guards_query hP i hP.optionOf⟩
  · exact (guards_ofExcept _).bind fun r => (guards_readVariable r).bind fun v => hG.pushCopy _
  · exact (guards_ofExcept _).bind fun r => (hG.popOne i).bind fun slot =>
      hG.attempt_release ((hG.value slot).bind fun v => guards_loadElement hP r v) [slot]
  · exact (guards_ofExcept _).bind fun r => (hG.popOne i).bind fun slot =>
      hG.attempt_release ((hG.value slot).bind fun v => guards_assign hP i r v) [slot]
  · refine (guards_ofExcept _).bind fun r => (hG.pop i 2).bind fun slots =>
      hG.attempt_release ((hG.values slots).bind fun vs => ?_) slots
    split
    · exact guards_storeElement i r _ _
    · exact guards_pure _

/-- The instructions that do not move a loop over the lights. -/
theorem guards_dispatchInPlace (i : Instruction) (hlights : i.code.movesLights = false) :
    Guards P (dispatch i : Exec ε (Option Nat)) :=
  (blind_guards hP).dispatchInPlace hP i (accesses_guards hP i) hlights

omit hP in
theorem guards_dispatch (hP : Environment.Keeps P) (i : Instruction) :
    Guards P (dispatch i : Exec ε (Option Nat)) :=
  (blind_guards hP.toKeepsInPlace).dispatch hP i (accesses_guards hP.toKeepsInPlace i)

end ShadingMachine.Exec
