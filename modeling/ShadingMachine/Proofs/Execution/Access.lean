import ShadingMachine.Proofs.Execution.Operands

/-! Reading and writing variables keeps what the single moves keep. The errors are those of run
time and those of reading the operands that stand behind the opcode. -/
namespace ShadingMachine.Exec

variable {ε α : Type} {I : Multiset Slot → Session ε → Prop}
variable {E : ExecError → Prop}

/-- Reading the operands of an instruction fails only with errors of `E`. -/
def Readable (I : Multiset Slot → Session ε → Prop) (E : ExecError → Prop) (i : Instruction) :
    Prop :=
  ∀ held s e, I held s → i.ReadError s.machine.locals e → E e

variable {i : Instruction}

theorem Readable.keeps_ofExcept (hr : Readable I E i) {x : Except ExecError α}
    (hx : ∀ locals e, x = .error e → i.ReadError locals e) :
    Keeps I E (ofExcept x) 0 fun _ => 0 := by
  intro held s h
  rw [Multiset.zero_add] at h
  rw [ends_ofExcept]
  exact ⟨fun a _ => by rwa [Multiset.zero_add], fun e he => ⟨hr held s e h (hx _ e he), h⟩⟩

/-- After an operand is read, what it was read from is known. -/
theorem keeps_ofExcept_bind {β : Type} {x : Except ExecError α} {f : α → Exec ε β}
    {d : β → Multiset Slot} (hx : Keeps I E (ofExcept x) 0 fun _ => 0)
    (hf : ∀ a, x = .ok a → Keeps I E (f a) 0 d) : Keeps I E (ofExcept x >>= f) 0 d := by
  cases x with
  | ok a => exact hf a rfl
  | error e => exact fun held s h => hx held s h

theorem getElem?_of_scalar? {ls : Locals} {k : Nat} {v : Variable} (h : ls.scalar? k = .ok v) :
    ls[k]? = some (.scalar v) := by
  unfold Locals.scalar? at h
  split at h
  · rename_i l hl
    cases l with
    | scalar w => cases h; exact hl
    | array a => cases h
  · cases h

theorem getElem?_of_array? {ls : Locals} {k : Nat} {a : VariableArray}
    (h : ls.array? k = .ok a) : ls[k]? = some (.array a) := by
  unfold Locals.array? at h
  split at h
  · rename_i l hl
    cases l with
    | scalar w => cases h
    | array b => cases h; exact hl
  · cases h

/-- The operand is a scalar variable whenever the instruction gets to read it. -/
def ScalarRead (i : Instruction) (r : VariableRef) : Prop :=
  ∀ locals e k, r = .declared k → Locals.scalar? locals k = .error e → i.ReadError locals e

def ArrayRead (i : Instruction) (r : VariableRef) : Prop :=
  (∀ locals e k, r = .declared k → Locals.array? locals k = .error e → i.ReadError locals e) ∧
    ∀ locals x, r = .graphics x → i.ReadError locals (.notAnArray x.name)

theorem keeps_readArray (hr : Readable I E i) {r : VariableRef} (ha : ArrayRead i r) :
    Keeps I E (readArray r) 0 fun _ => 0 := by
  intro held s h
  rw [Multiset.zero_add] at h
  cases r with
  | declared k =>
    simp only [readArray, ends_bind, ends_machine, ends_ofExcept]
    exact ⟨fun v _ => by simpa using h, fun e he => ⟨hr held s e h (ha.1 _ e k rfl he), h⟩⟩
  | graphics x => exact ⟨hr held s _ h (ha.2 _ x rfl), h⟩

theorem arrayRead_of_variableRef {r : VariableRef} (hi : i.variableRef = .ok r)
    (hc : i.code = .pushElement ∨ i.code = .popElement) : ArrayRead i r := by
  constructor
  · intro locals e k hk he
    rcases hc with hc | hc <;> simp only [Instruction.ReadError, hc]
    all_goals exact .inr (.inl ⟨k, hk ▸ hi, he⟩)
  · intro locals x hx
    rcases hc with hc | hc <;> simp only [Instruction.ReadError, hc]
    all_goals exact .inr (.inr ⟨x, hx ▸ hi, rfl⟩)

theorem keeps_warn (hI : Stable I) (text : String) (b : Multiset Slot) :
    Keeps I E (warn i text) b fun _ => b :=
  keeps_serve hI _ b

theorem keeps_readVariable [Environment ε] (hE : ∀ e : ExecError, e.IsRuntime → E e)
    (hr : Readable I E i) {r : VariableRef} (hs : ScalarRead i r) :
    Keeps I E (readVariable r) 0 fun _ => 0 := by
  intro held s h
  rw [Multiset.zero_add] at h
  cases r with
  | declared k =>
    simp only [readVariable, ends_bind, ends_machine, ends_ofExcept]
    exact ⟨fun v _ => by rwa [Multiset.zero_add],
      fun e he => ⟨hr held s e h (hs _ e k rfl he), h⟩⟩
  | graphics x =>
    simp only [readVariable, ends_bind, ends_environment]
    cases Environment.graphics? s.host.env x with
    | some v => simpa using h
    | none => exact ⟨hE _ trivial, h⟩

variable (hI : Stable I) (hE : ∀ e : ExecError, e.IsRuntime → E e) (hr : Readable I E i)
include hI hE hr

theorem keeps_storeElement {r : VariableRef} (ha : ArrayRead i r) (source index : Value) :
    Keeps I E (storeElement i r source index) 0 fun _ => 0 := by
  intro held s h
  have hw := fun text : String => keeps_warn (E := E) (i := i) hI text 0 held s h
  rw [Multiset.zero_add] at h
  cases r with
  | graphics x => exact ⟨hr held s _ h (ha.2 _ x rfl), h⟩
  | declared k =>
    simp only [storeElement, readArray, ends_bind, ends_machine, ends_ofExcept, ends_pure]
    refine ⟨fun a hk => ?_, fun e he => ⟨hr held s e h (ha.1 _ e k rfl he), h⟩⟩
    have hk := getElem?_of_array? hk
    split
    · simp only [ends_bind, ends_ofExcept]
      refine ⟨fun j hj => ?_, fun e he => ⟨hE e (isRuntime_of_place? he), h⟩⟩
      cases hv : a.elements[j]? with
      | none => simpa using h
      | some v =>
        cases hw' : v.assign source s.machine.mask with
        | ok w => simpa [hw', writeArray] using hI.writeElement hk hv hw' h
        | error e => simpa [hw'] using hw e.message
    split
    · exact hw _
    split
    · exact hw _
    · have hs := @hI.scatter _ _ _ _ index source hk h
      simp only [writeArray, ends_bind, ends_modifyMachine, ends_ofExcept]
      refine ⟨fun _ _ => by simpa using hs, fun e he => ⟨hE e (isRuntime_of_scatter he), hs⟩⟩

theorem keeps_loadElement {r : VariableRef} (ha : ArrayRead i r) (index : Value) :
    Keeps I E (loadElement r index) 0 fun _ => 0 := by
  refine (keeps_readArray hr ha).bind fun found => ?_
  obtain ⟨k, a⟩ := found
  show Keeps I E (if index.isVarying then _ else _) 0 _
  split
  · refine (keeps_allocate hI a.type .varying 0).bind fun slot => (keeps_machine _).bind fun m => ?_
    refine (keeps_value slot _).bind fun out => (keeps_store hI slot _ 0).bind fun _ => ?_
    split
    · exact keeps_push hI slot 0
    · rename_i e he
      refine (keeps_release hI [slot] 0).bind fun _ => ?_
      exact keeps_throw (hE e (isRuntime_of_gather he)) _
  · refine (keeps_ofExcept fun e he => hE e (isRuntime_of_place? he)).bind fun j => ?_
    split
    · exact keeps_pushCopy hI _
    · exact keeps_pure _ fun _ => 0

theorem keeps_pushElement (hc : i.code = .pushElement) :
    Keeps I E (pushElement i) 0 fun _ => 0 := by
  unfold pushElement
  refine keeps_ofExcept_bind (hr.keeps_ofExcept fun _ e he => ?_) fun r hi => ?_
  · simp only [Instruction.ReadError, hc]; exact .inl he
  · refine (keeps_popOne hI hE i).bind fun slot => keeps_attempt_release hI ?_ [slot]
    refine (keeps_value slot 0).bind fun v => keeps_loadElement hI hE hr ?_ v
    exact arrayRead_of_variableRef hi (.inl hc)

theorem keeps_popElement (hc : i.code = .popElement) :
    Keeps I E (popElement i) 0 fun _ => 0 := by
  unfold popElement
  refine keeps_ofExcept_bind (hr.keeps_ofExcept fun _ e he => ?_) fun r hi => ?_
  · simp only [Instruction.ReadError, hc]; exact .inl he
  · refine (keeps_pop hI hE i 2).bind fun slots => ?_
    refine keeps_attempt_release hI ((keeps_values slots 0).bind fun vs => ?_) slots
    split
    · exact keeps_storeElement hI hE hr (arrayRead_of_variableRef hi (.inr hc)) _ _
    · exact keeps_pure _ fun _ => 0

variable [Environment ε]

theorem keeps_assign {r : VariableRef} (hs : ScalarRead i r) (source : Value) :
    Keeps I E (assign i r source) 0 fun _ => 0 := by
  intro held s h
  have hw := fun e : AssignError => keeps_warn (E := E) (i := i) hI e.message 0 held s h
  rw [Multiset.zero_add] at h
  cases r with
  | declared k =>
    simp only [assign, readVariable, ends_bind, ends_machine, ends_ofExcept]
    refine ⟨fun v hv => ?_, fun e he => ⟨hr held s e h (hs _ e k rfl he), h⟩⟩
    cases hw' : v.assign source s.machine.mask with
    | ok w =>
      have hk := hI.write (getElem?_of_scalar? hv) hw' h
      simpa [writeVariable] using hk
    | error e => exact hw e
  | graphics x =>
    simp only [assign, readVariable, ends_bind, ends_machine, ends_environment]
    cases Environment.graphics? s.host.env x with
    | none => exact ⟨hE _ trivial, h⟩
    | some v =>
      simp only [ends_pure]
      cases v.assign source s.machine.mask with
      | ok w => simpa [writeVariable] using hI.host _ h
      | error e => exact hw e

theorem keeps_pushVariable (hc : i.code = .pushVariable) :
    Keeps I E (pushVariable i) 0 fun _ => 0 := by
  unfold pushVariable
  refine keeps_ofExcept_bind (hr.keeps_ofExcept fun _ e he => ?_) fun r hr' => ?_
  · simp only [Instruction.ReadError, hc]; exact .inl he
  · refine (keeps_readVariable hE hr fun _ e k hk he => ?_).bind fun v => keeps_pushCopy hI _
    simp only [Instruction.ReadError, hc]
    exact .inr ⟨k, hk ▸ hr', he⟩

theorem keeps_popVariable (hc : i.code = .popVariable) :
    Keeps I E (popVariable i) 0 fun _ => 0 := by
  unfold popVariable
  refine keeps_ofExcept_bind (hr.keeps_ofExcept fun _ e he => ?_) fun r hr' => ?_
  · simp only [Instruction.ReadError, hc]; exact .inl he
  · refine (keeps_popOne hI hE i).bind fun slot => keeps_attempt_release hI ?_ [slot]
    refine (keeps_value slot 0).bind fun v => keeps_assign hI hE hr (fun _ e k hk he => ?_) v
    simp only [Instruction.ReadError, hc]
    exact .inr ⟨k, hk ▸ hr', he⟩

end ShadingMachine.Exec
