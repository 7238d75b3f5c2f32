import ShadingMachine.Proofs.Execution.Moves
import ShadingMachine.Proofs.Execution.Outcome
import ShadingMachine.Scene.Grid

/-! What taking operands and putting results leaves as it was on a grid: the variables, the states
of the points and the mask, whether the computation succeeds or fails. -/
namespace ShadingMachine

/-- Leaves graphics variables and the states of the points alone. -/
def Serving.Quiet {α : Type} (x : Serving Grid α) : Prop :=
  ∀ h, (x.run h).2.env.graphics = h.env.graphics ∧ (x.run h).2.env.states = h.env.states

namespace Grid

variable {α β : Type}

theorem quiet_pure (a : α) : (pure a : Serving Grid α).Quiet := fun _ => ⟨rfl, rfl⟩

theorem quiet_get : (get : Serving Grid (Host Grid)).Quiet := fun _ => ⟨rfl, rfl⟩

theorem quiet_report (text : String) : (report text).Quiet := fun _ => ⟨rfl, rfl⟩

theorem quiet_print (text : String) : (print text).Quiet := fun _ => ⟨rfl, rfl⟩

theorem quiet_note (level : Text.Level) (text : String) :
    (note level text : Serving Grid Unit).Quiet := fun _ => ⟨rfl, rfl⟩

end Grid

theorem Serving.Quiet.bind {α β : Type} {x : Serving Grid α} {f : α → Serving Grid β}
    (hx : x.Quiet) (hf : ∀ a, (f a).Quiet) : Serving.Quiet (x >>= f) := fun h =>
  ⟨((hf _ _).1).trans (hx h).1, ((hf _ _).2).trans (hx h).2⟩

namespace Grid

theorem quiet_texture (kind : TextureKind) (name channel out : Value) (mask : Mask) :
    (texture kind name channel out mask).Quiet := by
  refine quiet_get.bind fun h => ?_
  split
  · split
    · exact (quiet_report _).bind fun _ => quiet_pure _
    · exact quiet_pure _
  · split <;> exact quiet_pure _

theorem quiet_derivative (kind : DerivativeKind) (v : Value) (divisor? : Option Value)
    (out : Value) (mask : Mask) : (derivative kind v divisor? out mask).Quiet := by
  refine quiet_get.bind fun h => ?_
  dsimp only
  split
  · exact (quiet_report _).bind fun _ => quiet_pure _
  · split <;> exact quiet_pure _

end Grid

namespace Exec

variable {α β : Type}

/-- Whichever way it ends, the computation leaves the property as it was. -/
def Preserves (I : Session Grid → Prop) (x : Exec Grid α) : Prop :=
  ∀ s, I s → Ends x s (fun _ t => I t) fun _ t => I t

/-- A property of the variables, of the states of the points and of the mask. -/
structure Quiet (I : Session Grid → Prop) : Prop where
  machine {s : Session Grid} {m : Machine} : I s → m.mask = s.machine.mask →
    m.locals = s.machine.locals → I { s with machine := m }
  host {s : Session Grid} {h : Host Grid} : I s → h.env.graphics = s.host.env.graphics →
    h.env.states = s.host.env.states → I { s with host := h }

section Sequencing

variable {I : Session Grid → Prop}

theorem Preserves.bind {x : Exec Grid α} {f : α → Exec Grid β} (hx : Preserves I x)
    (hf : ∀ a, Preserves I (f a)) : Preserves I (x >>= f) := fun s hs =>
  ends_bind.mpr ((hx s hs).imp (fun a t ht => hf a t ht) fun _ _ he => he)

theorem preserves_pure (a : α) : Preserves I (pure a) := fun _ hs => hs

theorem preserves_throw (e : ExecError) : Preserves I (throw e : Exec Grid α) := fun _ hs => hs

theorem preserves_machine : Preserves I (machine : Exec Grid Machine) := fun _ hs => hs

theorem preserves_environment : Preserves I (environment : Exec Grid Grid) := fun _ hs => hs

theorem preserves_value (slot : Slot) : Preserves I (value slot : Exec Grid Value) :=
  fun _ hs => hs

theorem preserves_values (slots : List Slot) :
    Preserves I (values slots : Exec Grid (List Value)) :=
  fun _ hs => hs

theorem preserves_ofExcept (x : Except ExecError α) : Preserves I (ofExcept x : Exec Grid α) :=
  fun _ hs => ends_ofExcept.mpr ⟨fun _ _ => hs, fun _ _ => hs⟩

/-- What is read behind an opcode is known after it is read. -/
theorem preserves_ofExcept_bind {x : Except ExecError α} {f : α → Exec Grid β}
    (hf : ∀ a, x = .ok a → Preserves I (f a)) : Preserves I (ofExcept x >>= f) := by
  cases x with
  | ok a => exact hf a rfl
  | error e => exact fun _ hs => hs

theorem Preserves.attempt {x : Exec Grid α} (hx : Preserves I x) : Preserves I (attempt x) :=
  fun s hs => ends_attempt.mpr (hx s hs)

theorem preserves_forIn {x : α → Exec Grid Unit} (hx : ∀ a, Preserves I (x a)) (as : List α) :
    Preserves I (forIn as PUnit.unit fun a _ => do x a; pure (ForInStep.yield PUnit.unit)) := by
  induction as with
  | nil => exact preserves_pure _
  | cons a as ih =>
    rw [List.forIn_cons]
    intro s hs
    simp only [ends_bind]
    exact (hx a s hs).imp (fun _ t ht => ih t ht) fun _ _ he => he

end Sequencing

section Moves

variable {I : Session Grid → Prop} (hI : Quiet I)
include hI

theorem preserves_modifyMachine {f : Machine → Machine}
    (hf : ∀ m, (f m).mask = m.mask ∧ (f m).locals = m.locals) :
    Preserves I (modifyMachine f : Exec Grid Unit) := fun s hs =>
  hI.machine hs (hf s.machine).1 (hf s.machine).2

theorem preserves_serve {x : Serving Grid α} (hx : x.Quiet) : Preserves I (serve x) := fun s hs =>
  hI.host hs (hx s.host).1 (hx s.host).2

theorem preserves_release (slots : List Slot) : Preserves I (release slots : Exec Grid Unit) :=
  preserves_modifyMachine hI fun _ => ⟨rfl, rfl⟩

theorem preserves_pop (i : Instruction) (n : Nat) :
    Preserves I (pop i n : Exec Grid (List Slot)) := by
  refine preserves_machine.bind fun m => ?_
  dsimp only
  split
  · exact preserves_throw _
  · refine (preserves_modifyMachine hI ?_).bind fun _ => preserves_pure _
    exact fun _ => ⟨rfl, rfl⟩

theorem preserves_popOne (i : Instruction) : Preserves I (popOne i : Exec Grid Slot) := by
  refine preserves_machine.bind fun m => ?_
  split
  · exact preserves_throw _
  · refine (preserves_modifyMachine hI ?_).bind fun _ => preserves_pure _
    exact fun _ => ⟨rfl, rfl⟩

theorem preserves_popValue (i : Instruction) : Preserves I (popValue i : Exec Grid Value) :=
  (preserves_popOne hI i).bind fun slot => (preserves_value slot).bind fun v =>
    (preserves_release hI [slot]).bind fun _ => preserves_pure v

theorem preserves_popCount (i : Instruction) : Preserves I (popCount i : Exec Grid Nat) := by
  refine (preserves_popValue hI i).bind fun v => ?_
  dsimp only
  split
  · exact preserves_throw _
  · refine preserves_machine.bind fun m => ?_
    split
    · exact preserves_throw _
    · exact preserves_pure _

theorem preserves_allocate (type : ValueType) (detail : Detail) :
    Preserves I (allocate type detail : Exec Grid Slot) := fun _ hs => hI.machine hs rfl rfl

theorem preserves_store (slot : Slot) (d : Data) : Preserves I (store slot d : Exec Grid Unit) :=
  preserves_modifyMachine hI fun _ => ⟨rfl, rfl⟩

theorem preserves_push (slot : Slot) : Preserves I (push slot : Exec Grid Unit) :=
  preserves_modifyMachine hI fun _ => ⟨rfl, rfl⟩

theorem preserves_pushUniform (type : ValueType) (x : type.storage.Elem) :
    Preserves I (pushUniform type x : Exec Grid Unit) :=
  (preserves_allocate hI type .uniform).bind fun slot => (preserves_value slot).bind fun _ =>
    (preserves_store hI slot _).bind fun _ => preserves_push hI slot

theorem preserves_pushData (type : ValueType) (detail : Detail) (d : Data) :
    Preserves I (pushData type detail d : Exec Grid Unit) :=
  (preserves_allocate hI type detail).bind fun slot => (preserves_store hI slot d).bind fun _ =>
    preserves_push hI slot

theorem preserves_pushCopy (v : Value) : Preserves I (pushCopy v : Exec Grid Unit) :=
  preserves_machine.bind fun _ => preserves_pushData hI v.type v.detail _

/-- What the environment does to fill a result leaves the property as it was. -/
def Filling.Preserves (I : Session Grid → Prop) (fill : Filling Grid) : Prop :=
  ∀ args out s, I s → I { s with host := ((fill args out s.machine.mask).run s.host).2 }

omit hI in
theorem Filling.preserves_return (f : List Value → Value → Mask → Except ExecError Value) :
    Filling.Preserves I fun args out mask => return f args out mask := fun _ _ _ hs => hs

theorem Filling.preserves_asked {ask : List Value → Value → Mask → Serving Grid Value}
    (h : ∀ args out mask, (ask args out mask).Quiet) : (asked ask).Preserves I :=
  fun args out s hs =>
    have hq := h args out s.machine.mask s.host
    hI.host hs hq.1 hq.2

theorem preserves_produceAs (type : ValueType) (detail : Detail) (args : List Slot)
    {fill : Filling Grid} (hf : fill.Preserves I) :
    Preserves I (produceAs type detail args fill) := by
  refine (preserves_allocate hI type detail).bind fun slot => ?_
  intro s hs
  simp only [ends_bind, values, value, ends_machine, ends_pure, ends_serve]
  have hfill := hf (args.map s.machine.pools.value) (s.machine.pools.value slot) s hs
  split
  · exact ((preserves_store hI slot _).bind fun _ => (preserves_release hI args).bind fun _ =>
      preserves_push hI slot) _ hfill
  · exact ((preserves_release hI args).bind fun _ => (preserves_release hI [slot]).bind fun _ =>
      preserves_throw _) _ hfill

theorem preserves_pop_produceAs (i : Instruction) (n : Nat) (type : ValueType)
    (detail : List Slot → Detail) {fill : List Slot → Filling Grid}
    (hf : ∀ slots, (fill slots).Preserves I) :
    Preserves I (do let slots ← pop i n; produceAs type (detail slots) slots (fill slots)) :=
  (preserves_pop hI i n).bind fun slots => preserves_produceAs hI type _ slots (hf slots)

theorem preserves_dup (i : Instruction) : Preserves I (dup i : Exec Grid Unit) := by
  refine preserves_machine.bind fun m => ?_
  split
  · exact preserves_throw _
  · exact (preserves_value _).bind fun v => preserves_pushData hI v.type v.detail v.data

theorem preserves_warn (i : Instruction) (text : String) :
    Preserves I (warn i text : Exec Grid Unit) := preserves_serve hI (Grid.quiet_note _ _)

theorem preserves_applyRule (i : Instruction) (r : Rule) :
    Preserves I (applyRule i r : Exec Grid Unit) := by
  refine (preserves_pop hI i r.arity).bind fun slots => ?_
  dsimp only
  split
  · exact preserves_produceAs hI _ _ slots (Filling.preserves_return _)
  · exact (preserves_release hI slots).bind fun _ => preserves_throw _

theorem preserves_spline (i : Instruction) (f : MathFunction) :
    Preserves I (spline i f : Exec Grid Unit) := by
  refine (preserves_popCount hI i).bind fun n => (preserves_pop hI i (n + 1)).bind fun slots => ?_
  have hp : Preserves I (produceBy i slots (f.spline? n) : Exec Grid Unit) := by
    unfold produceBy
    split
    · exact preserves_produceAs hI _ _ slots (Filling.preserves_return _)
    · exact preserves_pure _
  dsimp only
  split
  · exact (preserves_warn hI i _).bind fun _ => hp
  · exact hp

theorem preserves_faceForward (i : Instruction) : Preserves I (faceForward i : Exec Grid Unit) := by
  refine (preserves_pop hI i 2).bind fun slots => preserves_environment.bind fun env => ?_
  split
  · dsimp only
    split
    · exact preserves_produceAs hI _ _ slots (Filling.preserves_return _)
    · exact preserves_pure _
  · exact (preserves_release hI slots).bind fun _ => preserves_throw _

/-! Variables are read. -/

omit hI in
theorem preserves_readVariable (r : VariableRef) :
    Preserves I (readVariable r : Exec Grid Variable) := by
  cases r with
  | declared k => exact preserves_machine.bind fun m => preserves_ofExcept _
  | graphics x => exact preserves_environment.bind fun env => preserves_pure _

omit hI in
theorem preserves_readArray (r : VariableRef) :
    Preserves I (readArray r : Exec Grid (Nat × VariableArray)) := by
  cases r with
  | declared k =>
    exact preserves_machine.bind fun m => (preserves_ofExcept _).bind fun _ => preserves_pure _
  | graphics x => exact preserves_throw _

theorem preserves_pushVariable (i : Instruction) : Preserves I (pushVariable i : Exec Grid Unit) :=
  (preserves_ofExcept _).bind fun r => (preserves_readVariable r).bind fun v =>
    preserves_pushCopy hI v.toValue

theorem preserves_loadElement (r : VariableRef) (index : Value) :
    Preserves I (loadElement r index : Exec Grid Unit) := by
  refine (preserves_readArray r).bind fun found => ?_
  obtain ⟨k, a⟩ := found
  show Preserves I (if index.isVarying then _ else _)
  split
  · refine (preserves_allocate hI a.type .varying).bind fun slot => ?_
    refine preserves_machine.bind fun m => ?_
    refine (preserves_value slot).bind fun out => (preserves_store hI slot _).bind fun _ => ?_
    split
    · exact preserves_push hI slot
    · exact (preserves_release hI [slot]).bind fun _ => preserves_throw _
  · refine (preserves_ofExcept _).bind fun j => ?_
    split
    · exact preserves_pushCopy hI _
    · exact preserves_pure _

/-- Work on slots in hand that is caught if it fails, so that the slots are given back. -/
theorem preserves_attempt_release {x : Exec Grid Unit} (hx : Preserves I x) (slots : List Slot) :
    Preserves I (do let done ← attempt x; release slots; ofExcept done) :=
  hx.attempt.bind fun done => (preserves_release hI slots).bind fun _ => preserves_ofExcept done

theorem preserves_pushElement (i : Instruction) : Preserves I (pushElement i : Exec Grid Unit) :=
  (preserves_ofExcept _).bind fun r => (preserves_popOne hI i).bind fun slot =>
    preserves_attempt_release hI
      ((preserves_value slot).bind fun v => preserves_loadElement hI r v) [slot]

end Moves

end Exec

end ShadingMachine
