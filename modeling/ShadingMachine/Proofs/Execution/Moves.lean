import ShadingMachine.Machine.Step

/-! What an instruction works with, seen as a computation. It takes and gives operands, asks the
environment, and reads and writes variables, which few instructions do. A property that the other
moves have, and that is kept when computations are put one after another, is had by every
instruction that reads and writes its variables with the property. The property may concern one run
or compare two. -/
namespace ShadingMachine

variable {ε α β : Type}

/-- An environment with the property still has it when it has answered. -/
def Serving.Keeps (P : ε → Prop) (x : Serving ε α) : Prop := ∀ h, P h.env → P (x.run h).2.env

namespace Serving

variable {P : ε → Prop}

theorem keeps_pure (a : α) : Keeps P (pure a : Serving ε α) := fun _ h => h

theorem keeps_note (level : Text.Level) (text : String) : Keeps P (note level text : Serving ε Unit) :=
  fun _ h => h

theorem Keeps.bind {x : Serving ε α} {f : α → Serving ε β} (hx : x.Keeps P)
    (hf : ∀ a, (f a).Keeps P) : (x >>= f).Keeps P := fun h hP => by
  rw [StateT.run_bind]
  exact hf _ _ (hx h hP)

end Serving

open Environment in
/-- No service takes the property away but those that move a loop over the lights, and neither does
setting a variable or the states. -/
structure Environment.KeepsInPlace [Environment ε] (P : ε → Prop) : Prop where
  setVariable {e : ε} (x : GraphicsVariable) (v : Variable) : P e → P (setVariable e x v)
  setStates {e : ε} (r : RunningStates) : P e → P (setStates e r)
  report (text : String) : (report text : Serving ε Unit).Keeps P
  print (text : String) : (print text : Serving ε Unit).Keeps P
  derivative (kind : DerivativeKind) (v : Value) (divisor? : Option Value) (out : Value)
    (mask : Mask) : (derivative kind v divisor? out mask : Serving ε Value).Keeps P
  noise (cells : Bool) (args : List Value) (out : Value) (mask : Mask) :
    (noise cells args out mask : Serving ε Value).Keeps P
  random (out : Value) (mask : Mask) : (random out mask : Serving ε Value).Keeps P
  depth (p out : Value) (mask : Mask) : (depth p out mask : Serving ε Value).Keeps P
  calculateNormal (p out : Value) (mask : Mask) :
    (calculateNormal p out mask : Serving ε Value).Keeps P
  area (p out : Value) (mask : Mask) : (area p out mask : Serving ε Value).Keeps P
  ambient (out : Value) (mask : Mask) : (ambient out mask : Serving ε Value).Keeps P
  diffuse (n out : Value) (mask : Mask) : (diffuse n out mask : Serving ε Value).Keeps P
  specular (n v r out : Value) (mask : Mask) :
    (specular n v r out mask : Serving ε Value).Keeps P
  phong (n v r out : Value) (mask : Mask) : (phong n v r out mask : Serving ε Value).Keeps P
  texture (kind : TextureKind) (name channel : Value) (places : List Value) (out : Value)
    (mask : Mask) : (texture kind name channel places out mask : Serving ε Value).Keeps P
  trace (p r out : Value) (mask : Mask) : (trace p r out mask : Serving ε Value).Keeps P
  attributeOf (name : String) (v : Variable) :
    (attribute? name v : Serving ε (Option Variable)).Keeps P
  optionOf (name : String) (v : Variable) : (option? name v : Serving ε (Option Variable)).Keeps P
  illuminance (category : Option String) (p axis angle out : Value) (mask : Mask) :
    (illuminance category p axis angle out mask : Serving ε Value).Keeps P
  illuminate (p : Value) (axis angle : Option Value) (out : Value) (mask : Mask) :
    (illuminate p axis angle out mask : Serving ε Value).Keeps P
  solar (axis angle : Option Value) (out : Value) (mask : Mask) :
    (solar axis angle out mask : Serving ε Value).Keeps P

open Environment in
/-- No service takes the property away, and neither does setting a variable or the states. -/
structure Environment.Keeps [Environment ε] (P : ε → Prop) : Prop extends KeepsInPlace P where
  forgetLights : (forgetLights : Serving ε Unit).Keeps P
  collectLights (category : Option String) : (collectLights category : Serving ε Unit).Keeps P
  firstLight : (firstLight : Serving ε Bool).Keeps P
  nextLight : (nextLight : Serving ε Bool).Keeps P

theorem Environment.keeps_true [Environment ε] : Environment.Keeps fun _ : ε => True := by
  refine ⟨?_, ?_, ?_, ?_, ?_⟩
  · constructor <;> intros <;> first | trivial | exact fun _ _ => trivial
  all_goals
    intros
    exact fun _ _ => trivial

/-- Whether an opcode moves a loop over the lights. -/
def Opcode.movesLights : Opcode → Bool
  | illumination .start | illumination .startCategory | illumination .advance => true
  | _ => false

namespace Exec

/-- What the environment does to fill a result. -/
def Filling.Keeps (P : ε → Prop) (fill : Filling ε) : Prop :=
  ∀ args out mask, (fill args out mask).Keeps P

namespace Filling

variable {P : ε → Prop}

theorem keeps_return (f : List Value → Value → Mask → Except ExecError Value) :
    Filling.Keeps P fun args out mask => return f args out mask := fun _ _ _ _ h => h

theorem keeps_asked {ask : List Value → Value → Mask → Serving ε Value}
    (h : ∀ args out mask, (ask args out mask).Keeps P) : (asked ask).Keeps P :=
  fun args out mask => (h args out mask).bind fun _ => Serving.keeps_pure _

end Filling

/-- Computations with the property can be put together, and those that do not look at the locals
have it: what is read of the machine is the same with other locals, what is changed are operands,
and the environment is asked where it keeps what it must. -/
structure Blind [Environment ε] (P : ε → Prop) (C : {α : Type} → Exec ε α → Prop) : Prop where
  pure {α : Type} (a : α) : C (pure a : Exec ε α)
  throw {α : Type} (e : ExecError) : C (throw e : Exec ε α)
  bind {α β : Type} {x : Exec ε α} {f : α → Exec ε β} : C x → (∀ a, C (f a)) → C (x >>= f)
  attempt {α : Type} {x : Exec ε α} : C x → C (attempt x)
  reads {α : Type} {f : Machine → Exec ε α} : (∀ m locals, f { m with locals } = f m) →
    (∀ m, C (f m)) → C (machine >>= f)
  operands (f : List Slot → Pools → List Slot × Pools) : C (modifyMachine fun m => { m with
    stack := (f m.stack m.pools).1, pools := (f m.stack m.pools).2 } : Exec ε Unit)
  allocate (type : ValueType) (detail : Detail) : C (allocate type detail : Exec ε Slot)
  environment : C (environment : Exec ε ε)
  serve {α : Type} {x : Serving ε α} : x.Keeps P → C (serve x)
  modifyStates (f : RunningStates → RunningStates) : C (modifyStates f : Exec ε Unit)

/-- The result of an element-wise function is pushed, if there is one. -/
def produceBy (i : Instruction) (slots : List Slot) (f? : Option Elementwise) : Exec ε Unit := do
  if let some f := f? then
    produce f.type slots fun args out mask => return f.fill i.name args out mask

/-- The moves of an instruction that read and write its variables have the property. -/
structure Accesses [Environment ε] (C : {α : Type} → Exec ε α → Prop) (i : Instruction) : Prop where
  pushVariable : i.code = .pushVariable → C (pushVariable i : Exec ε Unit)
  pushElement : i.code = .pushElement → C (pushElement i : Exec ε Unit)
  popVariable : i.code = .popVariable → C (popVariable i : Exec ε Unit)
  popElement : i.code = .popElement → C (popElement i : Exec ε Unit)
  queryAttribute : i.code = .service .attribute →
    C (query i Environment.attribute? : Exec ε Unit)
  queryOption : i.code = .service .option → C (query i Environment.option? : Exec ε Unit)

namespace Blind

variable [Environment ε] {P : ε → Prop} {C : {α : Type} → Exec ε α → Prop} (hC : Blind P C)
include hC

section Sequencing

theorem ofExcept (x : Except ExecError α) : C (ofExcept x : Exec ε α) := by
  cases x with
  | ok a => exact hC.pure a
  | error e => exact hC.throw e

theorem forIn {x : α → Exec ε Unit} (hx : ∀ a, C (x a)) (as : List α) :
    C (forIn as PUnit.unit fun a _ => do x a; Pure.pure (ForInStep.yield PUnit.unit)) := by
  induction as with
  | nil => exact hC.pure _
  | cons a as ih =>
    rw [List.forIn_cons, bind_assoc]
    exact hC.bind (hx a) fun _ => by rw [pure_bind]; exact ih

theorem none {x : Exec ε Unit} (hx : C x) : C (do x; return (none : Option Nat)) :=
  hC.bind hx fun _ => hC.pure _

end Sequencing

section Operands

theorem release (slots : List Slot) : C (release slots : Exec ε Unit) :=
  hC.operands fun stack pools => (stack, pools.releaseAll slots)

theorem store (slot : Slot) (d : Data) : C (store slot d : Exec ε Unit) :=
  hC.operands fun stack pools => (stack, pools.store slot d)

theorem push (slot : Slot) : C (push slot : Exec ε Unit) :=
  hC.operands fun stack pools => (slot :: stack, pools)

theorem pop (i : Instruction) (n : Nat) : C (pop i n : Exec ε (List Slot)) := by
  refine hC.reads (fun _ _ => rfl) fun m => ?_
  dsimp only
  split
  · exact hC.throw _
  · exact hC.bind (hC.operands fun stack pools => (stack.drop n, pools)) fun _ => hC.pure _

theorem popOne (i : Instruction) : C (popOne i : Exec ε Slot) := by
  refine hC.reads (fun _ _ => rfl) fun m => ?_
  split
  · exact hC.throw _
  · rename_i slot stack _
    exact hC.bind (hC.operands fun _ pools => (stack, pools)) fun _ => hC.pure _

theorem value (slot : Slot) : C (value slot : Exec ε Value) :=
  hC.reads (fun _ _ => rfl) fun _ => hC.pure _

theorem values (slots : List Slot) : C (values slots : Exec ε (List Value)) :=
  hC.reads (fun _ _ => rfl) fun _ => hC.pure _

theorem popValue (i : Instruction) : C (popValue i : Exec ε Value) :=
  hC.bind (hC.popOne i) fun slot => hC.bind (hC.value slot) fun v =>
    hC.bind (hC.release [slot]) fun _ => hC.pure v

theorem popCount (i : Instruction) : C (popCount i : Exec ε Nat) := by
  refine hC.bind (hC.popValue i) fun v => ?_
  have hcount : C (do
      let n := Scalar.toIndex (v.getFloat 0)
      if (← machine).stack.length < n then MonadExcept.throw i.underflow
      return n : Exec ε Nat) := by
    refine hC.reads (fun _ _ => rfl) fun m => ?_
    dsimp only
    split
    · exact hC.bind (hC.throw _) fun _ => hC.pure _
    · exact hC.pure _
  dsimp only
  split
  · exact hC.bind (hC.throw _) fun _ => hcount
  · exact hcount

theorem pushUniform (type : ValueType) (x : type.storage.Elem) :
    C (pushUniform type x : Exec ε Unit) :=
  hC.bind (hC.allocate type .uniform) fun slot => hC.bind (hC.value slot) fun _ =>
    hC.bind (hC.store slot _) fun _ => hC.push slot

theorem pushData (type : ValueType) (detail : Detail) (d : Data) :
    C (pushData type detail d : Exec ε Unit) :=
  hC.bind (hC.allocate type detail) fun slot => hC.bind (hC.store slot d) fun _ => hC.push slot

theorem pushCopy (v : Value) : C (pushCopy v : Exec ε Unit) :=
  hC.reads (fun _ _ => rfl) fun _ => hC.pushData v.type v.detail _

theorem produceAs (type : ValueType) (detail : Detail) (args : List Slot) {fill : Filling ε}
    (hf : fill.Keeps P) : C (produceAs type detail args fill) := by
  refine hC.bind (hC.allocate type detail) fun slot => hC.bind (hC.values args) fun vs => ?_
  refine hC.bind (hC.value slot) fun out => hC.reads (fun _ _ => rfl) fun m => ?_
  refine hC.bind (hC.serve (hf vs out m.mask)) fun filled => ?_
  cases filled with
  | ok v =>
    exact hC.bind (hC.store slot _) fun _ => hC.bind (hC.release args) fun _ => hC.push slot
  | error e =>
    exact hC.bind (hC.release args) fun _ => hC.bind (hC.release [slot]) fun _ => hC.throw e

/-- Operands are taken for a result that the environment fills. -/
theorem pop_asked (i : Instruction) (n : Nat) (type : ValueType) (detail : List Slot → Detail)
    {ask : List Value → Value → Mask → Serving ε Value}
    (h : ∀ args out mask, (ask args out mask).Keeps P) :
    C (do let slots ← Exec.pop i n; Exec.produceAs type (detail slots) slots (asked ask)) :=
  hC.bind (hC.pop i n) fun slots => hC.produceAs type _ slots (Filling.keeps_asked h)

/-- Work on slots in hand that is caught if it fails, so that the slots are given back. -/
theorem attempt_release {x : Exec ε Unit} (hx : C x) (slots : List Slot) :
    C (do let done ← Exec.attempt x; Exec.release slots; MonadExcept.ofExcept done) :=
  hC.bind (hC.attempt hx) fun done => hC.bind (hC.release slots) fun _ => hC.ofExcept done

theorem warn (i : Instruction) (text : String) : C (warn i text : Exec ε Unit) :=
  hC.serve (Serving.keeps_note _ _)

theorem applyRule (i : Instruction) (r : Rule) : C (applyRule i r : Exec ε Unit) := by
  refine hC.bind (hC.pop i r.arity) fun slots => ?_
  dsimp only
  split
  · exact hC.produceAs _ _ slots (Filling.keeps_return _)
  · exact hC.bind (hC.release slots) fun _ => hC.throw _

theorem spline (i : Instruction) (f : MathFunction) : C (spline i f : Exec ε Unit) := by
  refine hC.bind (hC.popCount i) fun n => hC.bind (hC.pop i (n + 1)) fun slots => ?_
  have hp : C (produceBy i slots (f.spline? n)) := by
    unfold produceBy
    split
    · exact hC.produceAs _ _ slots (Filling.keeps_return _)
    · exact hC.pure _
  dsimp only
  split
  · exact hC.bind (hC.warn i _) fun _ => hp
  · exact hp

theorem dup (i : Instruction) : C (dup i : Exec ε Unit) := by
  refine hC.reads (fun _ _ => rfl) fun m => ?_
  split
  · exact hC.throw _
  · exact hC.bind (hC.value _) fun v => hC.pushData v.type v.detail v.data

theorem faceForward (i : Instruction) : C (faceForward i : Exec ε Unit) := by
  refine hC.bind (hC.pop i 2) fun slots => hC.bind hC.environment fun env => ?_
  split
  · dsimp only
    split
    · exact hC.produceAs _ _ slots (Filling.keeps_return _)
    · exact hC.pure _
  · exact hC.bind (hC.release slots) fun _ => hC.throw _

theorem service₁ (i : Instruction) (type : ValueType) (varying : Bool)
    {ask : Value → Value → Mask → Serving ε Value} (h : ∀ x out mask, (ask x out mask).Keeps P) :
    C (service₁ i type varying ask) := by
  refine hC.bind (hC.pop i 1) fun slots => hC.produceAs _ _ slots
    (Filling.keeps_asked fun args out mask => ?_)
  split
  · exact h _ out mask
  · exact Serving.keeps_pure _

theorem service₂ (i : Instruction) (type : ValueType)
    {ask : Value → Value → Value → Mask → Serving ε Value}
    (h : ∀ x y out mask, (ask x y out mask).Keeps P) : C (service₂ i type ask) := by
  refine hC.pop_asked i 2 type (fun _ => .varying) fun args out mask => ?_
  split
  · exact h _ _ out mask
  · exact Serving.keeps_pure _

theorem service₃ (i : Instruction) (type : ValueType)
    {ask : Value → Value → Value → Value → Mask → Serving ε Value}
    (h : ∀ x y z out mask, (ask x y z out mask).Keeps P) : C (service₃ i type ask) := by
  refine hC.pop_asked i 3 type (fun _ => .varying) fun args out mask => ?_
  split
  · exact h _ _ _ out mask
  · exact Serving.keeps_pure _

end Operands

section Instructions

variable (hP : Environment.KeepsInPlace P)
include hP

theorem printFormat (i : Instruction) : C (printFormat i : Exec ε Unit) := by
  refine hC.bind (hC.popCount i) fun n => hC.bind (hC.pop i (n + 1)) fun slots => ?_
  refine hC.reads (fun _ _ => rfl) fun m => hC.bind (hC.values slots) fun vs => ?_
  split
  · exact hC.bind (hC.forIn (fun k => hC.serve (hP.print _)) _) fun _ => hC.release slots
  · exact hC.release slots

theorem matchPattern (i : Instruction) : C (matchPattern i : Exec ε Unit) := by
  refine hC.reads (fun _ _ => rfl) fun m => hC.pop_asked i 2 .float _ fun args out mask => ?_
  unfold answerMatch
  split
  · dsimp only
    split
    · exact (hP.report _).bind fun _ => Serving.keeps_pure _
    · exact Serving.keeps_pure _
  · exact Serving.keeps_pure _

theorem string (i : Instruction) (f : StringFunction) : C (string i f : Exec ε Unit) := by
  cases f with
  | concat =>
    exact hC.bind (hC.popCount i) fun n => hC.bind (hC.pop i n) fun slots =>
      hC.produceAs _ _ slots (Filling.keeps_return _)
  | format =>
    refine hC.bind (hC.popCount i) fun n => hC.bind (hC.pop i (n + 1)) fun slots =>
      hC.produceAs _ _ slots fun args out mask => ?_
    cases args <;> exact Serving.keeps_pure _
  | printf => exact hC.printFormat hP i
  | matchPattern => exact hC.matchPattern hP i

theorem transform (i : Instruction) (type : ValueType) (between : Bool) :
    C (transform i type between : Exec ε Unit) := by
  refine hC.bind (hC.pop i _) fun slots => hC.bind (hC.values slots) fun vs => ?_
  refine hC.bind hC.environment fun env => ?_
  have hp (f : Elementwise) : C (produce type slots (onLast i f) : Exec ε Unit) :=
    hC.produceAs _ _ slots (Filling.keeps_return _)
  dsimp only
  split
  · exact hC.bind (hC.serve (hP.report _)) fun _ => hp _
  · exact hp _

theorem transformColor (i : Instruction) (between : Bool) :
    C (transformColor i between : Exec ε Unit) := by
  refine hC.bind (hC.pop i _) fun slots => hC.bind (hC.values slots) fun vs => ?_
  have hp (f : Elementwise) : C (produce .color slots (onLast i f) : Exec ε Unit) :=
    hC.produceAs _ _ slots (Filling.keeps_return _)
  dsimp only
  split
  · exact hC.bind (hC.serve (hP.report _)) fun _ => hp _
  · exact hp _

theorem lookUp (i : Instruction) (kind : TextureKind) (type : ValueType) (arity : Nat) :
    C (lookUp i kind type arity : Exec ε Unit) := by
  refine hC.pop_asked i arity type (fun _ => .varying) fun args out mask => ?_
  split
  · exact hP.texture kind _ _ _ out mask
  · exact Serving.keeps_pure _

theorem service (i : Instruction) (hi : Accesses C i) {f : Service} (hf : i.code = .service f) :
    C (service i f : Exec ε Unit) := by
  have h₀ {ask : Value → Mask → Serving ε Value} (type : ValueType)
      (h : ∀ out mask, (ask out mask).Keeps P) : C (service₀ type ask) :=
    hC.produceAs type .varying [] (Filling.keeps_asked fun _ => h)
  have hnoise (cells : Bool) (type : ValueType) (k : Nat) :=
    hC.pop_asked i k type (fun slots => Detail.joinAll (slots.map (·.detail))) (hP.noise cells)
  cases f with
  | transform type between => exact hC.transform hP i type between
  | transformColor between => exact hC.transformColor hP i between
  | depth => exact hC.service₁ i _ _ hP.depth
  | calculateNormal => exact hC.service₁ i _ _ hP.calculateNormal
  | area => exact hC.service₁ i _ _ hP.area
  | alongU | alongV => exact hC.service₁ i _ _ fun x => hP.derivative _ x .none
  | derivative => exact hC.service₂ i _ fun x y => hP.derivative _ x (some y)
  | random => exact h₀ _ hP.random
  | noise type n => exact hnoise false type _
  | cellNoise type n => exact hnoise true type _
  | ambient => exact h₀ _ hP.ambient
  | diffuse => exact hC.service₁ i _ _ hP.diffuse
  | specular => exact hC.service₃ i _ hP.specular
  | phong => exact hC.service₃ i _ hP.phong
  | texture | surroundings | shadow => exact hC.lookUp hP i _ _ _
  | trace => exact hC.service₂ i _ hP.trace
  | «attribute» => exact hi.queryAttribute hf
  | option => exact hi.queryOption hf

theorem illuminationInPlace (i : Instruction) {f : Illumination}
    (hf : (Opcode.illumination f).movesLights = false) : C (illumination i f : Exec ε Unit) := by
  cases f with
  | start | startCategory | advance => cases hf
  | illuminance => exact hC.service₃ i _ (hP.illuminance .none)
  | illuminanceCategory =>
    refine hC.pop_asked i 4 .float (fun _ => .varying) fun args out mask => ?_
    split
    · exact hP.illuminance _ _ _ _ out mask
    · exact Serving.keeps_pure _
  | illuminate => exact hC.service₃ i _ fun p axis angle => hP.illuminate p _ _
  | illuminateAll => exact hC.service₁ i _ _ fun p => hP.illuminate p .none .none
  | solar => exact hC.service₂ i _ fun axis angle => hP.solar _ _
  | solarAll =>
    exact hC.produceAs _ .varying [] (Filling.keeps_asked fun _ => hP.solar .none .none)

omit hP in
theorem startIlluminance (hP : Environment.Keeps P) (category : Option String) :
    C (startIlluminance category : Exec ε Unit) :=
  hC.bind (hC.serve (hP.collectLights category)) fun _ => hC.bind (hC.serve hP.firstLight) fun _ =>
    hC.pushUniform .float _

omit hP in
theorem illumination (hP : Environment.Keeps P) (i : Instruction) (f : Illumination) :
    C (illumination i f : Exec ε Unit) := by
  cases f with
  | start => exact hC.startIlluminance hP .none
  | startCategory => exact hC.bind (hC.popValue i) fun v => hC.startIlluminance hP _
  | advance => exact hC.bind (hC.serve hP.nextLight) fun _ => hC.pushUniform .float _
  | illuminance | illuminanceCategory | illuminate | illuminateAll | solar | solarAll =>
    exact hC.illuminationInPlace hP.toKeepsInPlace i rfl

omit hP in
theorem flow (i : Instruction) (f : Flow) : C (flow i f : Exec ε (Option Nat)) := by
  have hjump (p : RunningStates → Bool) : C (jumpIf i p : Exec ε (Option Nat)) :=
    hC.bind (hC.ofExcept _) fun _ => hC.bind hC.environment fun _ => hC.pure _
  have hon (want : Bool) : C (jumpOn i want : Exec ε (Option Nat)) :=
    hC.bind (hC.ofExcept _) fun _ => hC.bind (hC.popValue i) fun _ =>
      hC.reads (fun _ _ => rfl) fun _ => hC.pure _
  unfold Exec.flow
  cases f with
  | enterScope | selectCurrent | invertScope | clearCurrent =>
    exact hC.none (hC.modifyStates _)
  | leaveScope =>
    refine hC.none (hC.bind hC.environment fun env => ?_)
    split
    · exact hC.modifyStates _
    · exact hC.throw _
  | setCurrent => exact hC.none (hC.bind (hC.popValue i) fun _ => hC.modifyStates _)
  | jumpNoCurrent | jumpAllCurrent | jumpNoRunning | jumpAllRunning => exact hjump _
  | jumpFalse | jumpTrue => exact hon _
  | jump => exact hC.bind (hC.ofExcept _) fun _ => hC.pure _

/-- An instruction has the property if its lights have it. -/
theorem dispatch_of (i : Instruction) (hi : Accesses C i)
    (hlights : ∀ f, i.code = .illumination f → C (Exec.illumination i f : Exec ε Unit)) :
    C (dispatch i : Exec ε (Option Nat)) := by
  unfold Exec.dispatch
  split
  · exact hC.none (hC.applyRule i _)
  rename_i hrule
  cases hc : i.code with
  | nop => exact hC.pure _
  | dup => exact hC.none (hC.dup i)
  | drop =>
    exact hC.bind (hC.popOne i) fun slot => hC.bind (hC.release [slot]) fun _ => hC.pure _
  | debugBreak => exact hC.none (hC.serve (Serving.keeps_note _ _))
  | pushFloat => exact hC.bind (hC.ofExcept _) fun x => hC.none (hC.pushUniform .float x)
  | pushString => exact hC.bind (hC.ofExcept _) fun s => hC.none (hC.pushUniform .string s)
  | pushPoint =>
    exact hC.bind (hC.ofExcept _) fun x => hC.bind (hC.ofExcept _) fun y =>
      hC.bind (hC.ofExcept _) fun z => hC.none (hC.pushUniform .point ⟨x, y, z⟩)
  | pushVariable => exact hC.none (hi.pushVariable hc)
  | pushElement => exact hC.none (hi.pushElement hc)
  | popVariable => exact hC.none (hi.popVariable hc)
  | popElement => exact hC.none (hi.popElement hc)
  | math f => exact hC.none (hC.spline i f)
  | geometry f =>
    rw [hc] at hrule
    cases f <;> first | exact hC.none (hC.faceForward i) | cases hrule
  | string f => exact hC.none (hC.string hP i f)
  | service f => exact hC.none (hC.service hP i hi hc)
  | illumination f => exact hC.none (hlights f hc)
  | flow f => exact hC.flow i f
  | merge | buildTriple | buildColor | buildMatrix | ofFloat | tripleToColor | colorToTriple
  | arithmetic | dot | cross | negate | compare | and | or | not => exact hC.pure _

theorem dispatchInPlace (i : Instruction) (hi : Accesses C i) (hlights : i.code.movesLights = false) :
    C (dispatch i : Exec ε (Option Nat)) :=
  hC.dispatch_of hP i hi fun _ hf => hC.illuminationInPlace hP i (hf ▸ hlights)

omit hP in
theorem dispatch (hP : Environment.Keeps P) (i : Instruction) (hi : Accesses C i) :
    C (dispatch i : Exec ε (Option Nat)) :=
  hC.dispatch_of hP.toKeepsInPlace i hi fun f _ => hC.illumination hP i f

end Instructions

end Blind

end Exec

end ShadingMachine
