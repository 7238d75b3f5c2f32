import ShadingMachine.Proofs.Execution.Stable

/-! Taking operands and putting results keeps what the single moves keep. -/
namespace ShadingMachine.Exec

variable {ε α : Type} {I : Multiset Slot → Session ε → Prop} {E : ExecError → Prop}

/-- What the environment answers to a result may fail only for a reason at run time. -/
def Filling.FailsAtRun (fill : Filling ε) : Prop :=
  ∀ args out mask h e, ((fill args out mask).run h).1 = .error e → e.IsRuntime

theorem isRuntime_of_checkOperands {op : String} {inputs : List Storage} {args : List Value}
    {e : ExecError} (h : Elementwise.checkOperands op inputs args = .error e) : e.IsRuntime := by
  induction inputs generalizing args with
  | nil => cases h
  | cons s inputs ih =>
    cases args with
    | nil => cases h
    | cons v vs =>
      unfold Elementwise.checkOperands at h
      split at h
      · exact ih h
      · cases h; trivial

theorem isRuntime_of_fill {f : Elementwise} {op : String} {args : List Value} {out : Value}
    {mask : Mask} {e : ExecError} (h : f.fill op args out mask = .error e) : e.IsRuntime := by
  unfold Elementwise.fill at h
  cases hc : Elementwise.checkOperands op f.inputs args with
  | error e' =>
    rw [hc] at h
    cases h
    exact isRuntime_of_checkOperands hc
  | ok u =>
    simp only [hc, bind, Except.bind] at h
    split at h
    · cases h; trivial
    · cases h

theorem isRuntime_of_place? {a : VariableArray} {x : Float32} {e : ExecError}
    (h : a.place? x = .error e) : e.IsRuntime := by
  unfold VariableArray.place? at h
  simp only at h
  split at h
  · cases h
  · cases h; trivial

theorem isRuntime_of_gather {a : VariableArray} {index : Value} {points : List Nat} {out : Value}
    {e : ExecError} (h : (a.gather index points out).2 = .error e) : e.IsRuntime := by
  induction points generalizing out with
  | nil => cases h
  | cons i points ih =>
    unfold VariableArray.gather at h
    split at h
    · exact ih h
    · rename_i e' he'
      cases h
      exact isRuntime_of_place? he'

theorem isRuntime_of_scatter {a : VariableArray} {index source : Value} {points : List Nat}
    {e : ExecError} (h : (a.scatter index source points).2 = .error e) : e.IsRuntime := by
  induction points generalizing a with
  | nil => cases h
  | cons i points ih =>
    unfold VariableArray.scatter at h
    split at h
    · exact ih h
    · rename_i e' he'
      cases h
      exact isRuntime_of_place? he'

theorem Filling.failsAtRun_fill (f : Elementwise) (op : String) (pick : List Value → List Value) :
    Filling.FailsAtRun fun args out mask => (return f.fill op (pick args) out mask : Serving ε _) :=
  fun _ _ _ _ _ he => isRuntime_of_fill he

theorem Filling.failsAtRun_asked (ask : List Value → Value → Mask → Serving ε Value) :
    (asked ask).FailsAtRun := fun _ _ _ _ _ he => by cases he

theorem Keeps.throwIf {c : Prop} [Decidable c] {e : ExecError} {x : PUnit → Exec ε α}
    {after : α → Multiset Slot} (he : E e) (hx : Keeps I E (x ⟨⟩) 0 after) :
    Keeps I E (if c then throw e >>= x else x ⟨⟩) 0 after := by
  split
  · exact (keeps_throw he fun _ => 0).bind fun _ => hx
  · exact hx

theorem keeps_serve_bind {β : Type} (hI : Stable I) {x : Serving ε α} {f : α → Exec ε β}
    {b : Multiset Slot} {d : β → Multiset Slot}
    (hf : ∀ h a, (x.run h).1 = a → Keeps I E (f a) b d) : Keeps I E (serve x >>= f) b d :=
  fun held s h => hf s.host _ rfl held _ (hI.host _ h)

section Slots

variable (hI : Stable I)
include hI

/-- Work on a slot in hand that is caught if it fails, so that the slot is given back. -/
theorem keeps_attempt_release {x : Exec ε Unit} (hx : Keeps I E x 0 fun _ => 0)
    (slots : List Slot) :
    Keeps I E (do let done ← attempt x; release slots; ofExcept done) slots fun _ => 0 := by
  intro held s h
  have h' : I (0 + (slots + held)) s := by rwa [Multiset.zero_add]
  simp only [ends_bind, ends_attempt]
  refine (hx _ s h').imp (fun a t ht => ?_) fun e t ht => ?_
  · rw [Multiset.zero_add] at ht
    rw [Multiset.zero_add]
    exact hI.releaseAll ht
  · exact ⟨ht.1, hI.releaseAll ht.2⟩

theorem keeps_pushUniform (type : ValueType) (x : type.storage.Elem) :
    Keeps I E (pushUniform type x) 0 fun _ => 0 :=
  (keeps_allocate hI type .uniform 0).bind fun slot => (keeps_value slot _).bind fun _ =>
    (keeps_store hI slot _ 0).bind fun _ => keeps_push hI slot 0

theorem keeps_pushData (type : ValueType) (detail : Detail) (d : Data) :
    Keeps I E (pushData type detail d) 0 fun _ => 0 :=
  (keeps_allocate hI type detail 0).bind fun slot =>
    (keeps_store hI slot d 0).bind fun _ => keeps_push hI slot 0

theorem keeps_pushCopy (v : Value) : Keeps I E (pushCopy v) 0 fun _ => 0 :=
  (keeps_machine 0).bind fun _ => keeps_pushData hI v.type v.detail _

end Slots

section Operands

variable (hI : Stable I) (hE : ∀ e : ExecError, e.IsRuntime → E e)
include hI hE

theorem keeps_pop (i : Instruction) (n : Nat) : Keeps I E (pop i n) 0 fun slots => slots := by
  intro held s h
  rw [Multiset.zero_add] at h
  unfold pop
  simp only [ends_bind, ends_machine]
  split
  · exact ⟨hE _ trivial, h⟩
  · have hp := hI.popList (List.take_append_drop n s.machine.stack).symm h
    rwa [← Multiset.coe_reverse] at hp

/-- After operands are taken, their number is known. -/
theorem keeps_pop_bind {β : Type} (i : Instruction) {n : Nat} {f : List Slot → Exec ε β}
    {d : β → Multiset Slot} (hf : ∀ slots, slots.length = n → Keeps I E (f slots) slots d) :
    Keeps I E (pop i n >>= f) 0 d := by
  intro held s h
  have hp := keeps_pop hI hE i n held s h
  have hn : Ends (pop i n) s (fun slots _ => slots.length = n) fun _ _ => True := by
    unfold pop
    simp only [ends_bind, ends_machine]
    split
    · trivial
    · rename_i hlt
      simp only [ends_bind, ends_modifyMachine, ends_pure, List.length_reverse, List.length_take]
      omega
  rw [ends_bind]
  exact (ends_and.mp ⟨hp, hn⟩).imp (fun slots t ht => hf slots ht.2 held t ht.1) fun e t he => he.1

theorem keeps_popOne (i : Instruction) : Keeps I E (popOne i) 0 fun slot => {slot} := by
  intro held s h
  rw [Multiset.zero_add] at h
  unfold popOne
  simp only [ends_bind, ends_machine]
  split
  · exact ⟨hE _ trivial, h⟩
  · rename_i slot stack hs
    have hp := hI.pop hs h
    rwa [← Multiset.singleton_add] at hp

theorem keeps_popValue (i : Instruction) : Keeps I E (popValue i) 0 fun _ => 0 :=
  (keeps_popOne hI hE i).bind fun slot => (keeps_value slot _).bind fun v =>
    (keeps_release hI [slot] 0).bind fun _ => keeps_pure v fun _ => 0

theorem keeps_popCount (i : Instruction) : Keeps I E (popCount i) 0 fun _ => 0 := by
  refine (keeps_popValue hI hE i).bind fun v => ?_
  refine Keeps.throwIf (hE _ trivial) ?_
  exact (keeps_machine 0).bind fun m => Keeps.throwIf (hE _ trivial) (keeps_pure _ fun _ => 0)

theorem keeps_produceAs (type : ValueType) (detail : Detail) (args : List Slot)
    {fill : Filling ε} (hf : fill.FailsAtRun) :
    Keeps I E (produceAs type detail args fill) args fun _ => 0 := by
  refine (keeps_allocate hI type detail _).bind fun slot => (keeps_values args _).bind fun vs => ?_
  refine (keeps_value slot _).bind fun out => (keeps_machine _).bind fun m => ?_
  refine keeps_serve_bind hI fun h filled hfilled => ?_
  have hr := keeps_release (E := E) hI args {slot}
  rw [Multiset.add_comm, Multiset.singleton_add] at hr
  cases filled with
  | ok v =>
    refine (keeps_store hI slot v.data _).bind fun _ => ?_
    exact hr.bind fun _ => keeps_push hI slot 0
  | error e =>
    refine hr.bind fun _ => (keeps_release hI [slot] 0).bind fun _ => ?_
    exact keeps_throw (hE e (hf _ _ _ _ _ hfilled)) _

theorem keeps_produce (type : ValueType) (args : List Slot) {fill : Filling ε}
    (hf : fill.FailsAtRun) : Keeps I E (produce type args fill) args fun _ => 0 :=
  keeps_produceAs hI hE type _ args hf

/-- Operands are taken for a result that replaces them. -/
theorem keeps_pop_produce (i : Instruction) (n : Nat) (type : ValueType)
    (detail : List Slot → Detail) {fill : List Slot → Filling ε}
    (hf : ∀ slots, (fill slots).FailsAtRun) :
    Keeps I E (do let slots ← pop i n; produceAs type (detail slots) slots (fill slots)) 0
      fun _ => 0 :=
  (keeps_pop hI hE i n).bind fun slots => keeps_produceAs hI hE type _ slots (hf slots)

end Operands

end ShadingMachine.Exec
