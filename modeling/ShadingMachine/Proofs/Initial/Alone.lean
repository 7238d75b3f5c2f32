import ShadingMachine.Proofs.Execution.Moves
import ShadingMachine.Proofs.Initial.FirstPoint
import ShadingMachine.Proofs.Storage.States

/-! A grid of one point beside locals of many. An instruction on such a grid does the same, with the
same outcome, on the first points of the locals alone, and so does a run of the initial segment. -/
namespace ShadingMachine

variable {ε : Type}

/-- With the first points of the locals only. -/
def Machine.atFirst (m : Machine) : Machine := { m with locals := m.locals.sizeTo 1 }

def Session.atFirst (s : Session ε) : Session ε := { s with machine := s.machine.atFirst }

/-- On a grid of one point, with locals that may be sized to a larger one. -/
structure Machine.Narrow (b : Nat) (m : Machine) : Prop where
  gridSize : m.gridSize = 1
  ones : ∀ i ∈ m.mask.ones, i = 0
  declared : m.Declared b

theorem Session.Regular.narrow_fetched {b : Nat} {s : Session Grid} (h : s.Regular 1 b)
    (i : Instruction) : (s.fetched i).machine.Narrow b where
  gridSize := h.gridSize
  ones k hk := by
    have hlt := h.states.tidy_running.lt_of_mem_ones hk
    rw [h.states.size_running] at hlt
    omega
  declared := h.declared

namespace Exec

variable {α β : Type}

/-- What one computation does on all points of the locals, another does on their first points, and
the first one keeps a property. -/
def EndsAtFirst (I : Session ε → Prop) (x y : Exec ε α) (s : Session ε) : Prop :=
  Ends x s (fun a t => I t ∧ y s.atFirst = .ok a t.atFirst)
    fun e t => I t ∧ y s.atFirst = .error e t.atFirst

/-- The computation does on the first points of the locals what it does on all of them. -/
def SameAtFirst (I : Session ε → Prop) (x : Exec ε α) : Prop := ∀ s, I s → EndsAtFirst I x x s

section Sequencing

variable {I : Session ε → Prop}

theorem sameAtFirst_pure (a : α) : SameAtFirst I (pure a : Exec ε α) := fun _ h => ⟨h, rfl⟩

theorem sameAtFirst_throw (e : ExecError) : SameAtFirst I (throw e : Exec ε α) := fun _ h => ⟨h, rfl⟩

theorem EndsAtFirst.bind {x y : Exec ε α} {f : α → Exec ε β} {s : Session ε}
    (hx : EndsAtFirst I x y s) (hf : ∀ a, SameAtFirst I (f a)) :
    EndsAtFirst I (x >>= f) (y >>= f) s := by
  have hok {a : α} {t : Session ε} (hy : y s.atFirst = .ok a t.atFirst) :
      (y >>= f) s.atFirst = f a t.atFirst := by
    simp only [Bind.bind, EStateM.bind, hy]
  have herror {e : ExecError} {t : Session ε} (hy : y s.atFirst = .error e t.atFirst) :
      (y >>= f) s.atFirst = .error e t.atFirst := by
    simp only [Bind.bind, EStateM.bind, hy]
  unfold EndsAtFirst
  rw [ends_bind]
  refine hx.imp (fun a t ht => ?_) fun e t ht => ⟨ht.1, herror ht.2⟩
  rw [hok ht.2]
  exact hf a t ht.1

theorem SameAtFirst.bind {x : Exec ε α} {f : α → Exec ε β} (hx : SameAtFirst I x)
    (hf : ∀ a, SameAtFirst I (f a)) : SameAtFirst I (x >>= f) := fun s h => (hx s h).bind hf

theorem SameAtFirst.endsAtFirst {x y : Exec ε α} {s : Session ε} (hx : SameAtFirst I x) (hs : I s)
    (hy : y s.atFirst = x s.atFirst) : EndsAtFirst I x y s := by
  unfold EndsAtFirst
  rw [hy]
  exact hx s hs

theorem EndsAtFirst.reads {f g : Machine → Exec ε α} {s : Session ε}
    (h : EndsAtFirst I (f s.machine) (g s.atFirst.machine) s) :
    EndsAtFirst I (machine >>= f) (machine >>= g) s := h

theorem EndsAtFirst.ofExcept_bind {γ : Type} {x : Except ExecError γ} {f g : γ → Exec ε α}
    {s : Session ε} (hs : I s) (h : ∀ c, EndsAtFirst I (f c) (g c) s) :
    EndsAtFirst I (ofExcept x >>= f) (ofExcept x >>= g) s := by
  cases x with
  | ok c => exact h c
  | error e => exact ⟨hs, rfl⟩

theorem SameAtFirst.attempt {x : Exec ε α} (hx : SameAtFirst I x) : SameAtFirst I (attempt x) := by
  intro s h
  unfold EndsAtFirst
  rw [ends_attempt]
  refine (hx s h).imp (fun a t ht => ⟨ht.1, ?_⟩) fun e t ht => ⟨ht.1, ?_⟩
  · simp only [Exec.attempt, ht.2]
  · simp only [Exec.attempt, ht.2]

theorem sameAtFirst_ofExcept (x : Except ExecError α) : SameAtFirst I (ofExcept x : Exec ε α) := by
  cases x with
  | ok a => exact sameAtFirst_pure a
  | error e => exact sameAtFirst_throw e

/-- What is read of the machine is the same with other locals. -/
theorem sameAtFirst_reads {f : Machine → Exec ε α} (hf : ∀ m locals, f { m with locals } = f m)
    (h : ∀ m, SameAtFirst I (f m)) : SameAtFirst I (machine >>= f) := by
  intro s hs
  have hrun : (machine >>= f) s.atFirst = f s.machine s.atFirst :=
    congrFun (hf s.machine (s.machine.locals.sizeTo 1)) s.atFirst
  unfold EndsAtFirst
  rw [hrun]
  exact h s.machine s hs

end Sequencing

/-- On a grid of one point. -/
abbrev narrow (b : Nat) (s : Session ε) : Prop := s.machine.Narrow b

variable [Environment ε] {b : Nat}

theorem blind_sameAtFirst (b : Nat) : Blind (fun _ : ε => True) (SameAtFirst (narrow b)) where
  pure := sameAtFirst_pure
  throw := sameAtFirst_throw
  bind := SameAtFirst.bind
  attempt := SameAtFirst.attempt
  reads := sameAtFirst_reads
  operands _ _ h := ⟨⟨h.gridSize, h.ones, h.declared⟩, rfl⟩
  allocate _ _ _ h := ⟨⟨h.gridSize, h.ones, h.declared⟩, rfl⟩
  environment _ h := ⟨h, rfl⟩
  serve _ _ h := ⟨h, rfl⟩
  modifyStates _ _ h := ⟨h, rfl⟩

section Locals

variable {s : Session ε} {k : Nat}

omit [Environment ε] in
theorem shaped_of_scalar? {m : Machine} (h : m.Narrow b) {v : Variable}
    (hk : m.locals.scalar? k = .ok v) : v.toValue.IsShaped b := by
  obtain ⟨d, -, hd⟩ := Locals.Declared.get h.declared (getElem?_of_scalar? hk)
  cases hd with
  | scalar _ hv => exact hv.toIsShaped

omit [Environment ε] in
theorem shaped_of_array? {m : Machine} (h : m.Narrow b) {a : VariableArray}
    (hk : m.locals.array? k = .ok a) : ∀ v ∈ a.elements, v.toValue.IsShaped b := by
  obtain ⟨d, -, hd⟩ := Locals.Declared.get h.declared (getElem?_of_array? hk)
  cases hd with
  | array _ _ _ ha => exact fun v hv => (ha v hv).toIsShaped

omit [Environment ε] in
/-- Of a value that is pushed on a grid of one point, only the first point is. -/
theorem pushCopy_sizeTo_one (v : Value) (hs : s.machine.gridSize = 1) :
    pushCopy (v.sizeTo 1) s = pushCopy v s := by
  have hpush (w : Value) : pushCopy w s = pushData w.type w.detail
      (if w.isVarying && w.size != 1 then w.data.resize 1 else w.data) s := by
    rw [← hs]
    rfl
  rw [hpush, hpush]
  obtain ⟨type, detail, d⟩ := v
  cases detail with
  | uniform => rfl
  | varying =>
    have hcut : (if (d.resize 1).size != 1 then (d.resize 1).resize 1 else d.resize 1) =
        if d.size != 1 then d.resize 1 else d := by
      by_cases hd : d.size = 1
      · simp [hd, d.resize_of_size hd]
      · simp [hd]
    exact congrArg (fun data => pushData type .varying data s) hcut

omit [Environment ε] in
/-- A local is looked up and worked with. -/
theorem sameAtFirst_lookUp {γ : Type} (look : Locals → Except ExecError γ) (cut : γ → γ)
    {x : Exec ε γ} (hx : ∀ s, x s = (ofExcept (look s.machine.locals) : Exec ε γ) s)
    (hcut : ∀ ls : Locals, look (ls.sizeTo 1) = (look ls).map cut) {f : γ → Exec ε α}
    (hf : ∀ c s, look s.machine.locals = .ok c → narrow b s →
      EndsAtFirst (narrow b) (f c) (f (cut c)) s) :
    SameAtFirst (narrow b) (x >>= f) := by
  intro s hs
  have hbind (t : Session ε) : (x >>= f) t = (ofExcept (look t.machine.locals) >>= f) t := by
    simp only [Bind.bind, EStateM.bind, hx]
  have hfirst : look s.atFirst.machine.locals = (look s.machine.locals).map cut := hcut _
  unfold EndsAtFirst Ends
  rw [hbind, hbind, hfirst]
  cases hc : look s.machine.locals with
  | error e => exact ⟨hs, rfl⟩
  | ok c => exact hf c s hc hs

theorem sameAtFirst_readScalar {f : Variable → Exec ε α}
    (hf : ∀ v s, s.machine.locals.scalar? k = .ok v → narrow b s →
      EndsAtFirst (narrow b) (f v) (f (v.sizeTo 1)) s) :
    SameAtFirst (narrow b) (readVariable (.declared k) >>= f) :=
  sameAtFirst_lookUp (·.scalar? k) (·.sizeTo 1) (fun _ => rfl) (fun ls => ls.scalar?_sizeTo 1 k) hf

/-- What is read of a variable is the same at the first point. -/
theorem sameAtFirst_readVariable {f : Variable → Exec ε α} (r : VariableRef)
    (hf : ∀ v, SameAtFirst (narrow b) (f v))
    (hsame : ∀ v s, narrow b s → f (v.sizeTo 1) s.atFirst = f v s.atFirst) :
    SameAtFirst (narrow b) (readVariable r >>= f) := by
  cases r with
  | graphics x =>
    refine SameAtFirst.bind ((blind_sameAtFirst b).environment.bind fun env => ?_) hf
    split
    · exact sameAtFirst_pure _
    · exact sameAtFirst_throw _
  | declared k =>
    exact sameAtFirst_readScalar fun v s _ hs => (hf v).endsAtFirst hs (hsame v s hs)

/-- An assignment writes to the first point only. -/
theorem sameAtFirst_assign (i : Instruction) (r : VariableRef) (source : Value) :
    SameAtFirst (narrow b) (assign i r source : Exec ε Unit) := by
  have hF := blind_sameAtFirst (ε := ε) b
  cases r with
  | graphics x =>
    refine hF.bind (hF.bind hF.environment fun env => ?_) fun v => hF.reads (fun _ _ => rfl) fun m => ?_
    · split
      · exact hF.pure _
      · exact hF.throw _
    · split
      · exact fun _ h => ⟨h, rfl⟩
      · exact hF.warn i _
  | declared k =>
    refine sameAtFirst_readScalar fun v s hk hs => ?_
    have hassign := Variable.assign_sizeTo_one (shaped_of_scalar? hs hk) source s.machine.mask
    refine EndsAtFirst.reads ?_
    have hmask : s.atFirst.machine.mask = s.machine.mask := rfl
    rw [hmask, hassign]
    cases hw : v.assign source s.machine.mask with
    | error e => exact hF.warn i e.message s hs
    | ok w =>
      have hdeclared := Locals.Declared.related hs.declared
        (Locals.related_set (getElem?_of_scalar? hk) (.scalar (Variable.sameKind_of_assign hw)))
      have hlocals := s.machine.locals.sizeTo_setIfInBounds 1 k (.scalar w)
      exact ⟨⟨hs.gridSize, hs.ones, hdeclared⟩, congrArg (fun locals => EStateM.Result.ok ()
        (⟨{ s.machine with locals }, s.host⟩ : Session ε)) hlocals.symm⟩

omit [Environment ε] in
theorem sameAtFirst_readArray {f : Nat × VariableArray → Exec ε α} {r : VariableRef}
    (hf : ∀ k a s, s.machine.locals.array? k = .ok a → narrow b s →
      EndsAtFirst (narrow b) (f (k, a)) (f (k, a.mapElements (·.sizeTo 1))) s) :
    SameAtFirst (narrow b) (readArray r >>= f) := by
  cases r with
  | graphics x => exact fun s hs => ⟨hs, rfl⟩
  | declared k =>
    refine sameAtFirst_lookUp (fun ls => (ls.array? k).map (k, ·))
      (fun found => (found.1, found.2.mapElements (·.sizeTo 1))) (fun s => ?_) (fun ls => ?_) ?_
    · show (ofExcept (s.machine.locals.array? k) >>= fun a => pure (k, a) : Exec ε _) s = _
      cases s.machine.locals.array? k <;> rfl
    · rw [ls.array?_sizeTo 1 k]
      cases ls.array? k <;> rfl
    · intro found s hfound hs
      cases ha : s.machine.locals.array? k with
      | error e =>
        rw [ha] at hfound
        cases hfound
      | ok a =>
        rw [ha] at hfound
        cases hfound
        exact hf k a s ha hs

/-- The result of reading an array at the points is pushed, or its slot is given back. -/
def pushRead {ε : Type} (slot : Slot) (read : Value × Except ExecError Unit) : Exec ε Unit := do
  store slot read.1.data
  match read.2 with
  | .ok () => push slot
  | .error e =>
    release [slot]
    throw e

theorem sameAtFirst_loadElement (r : VariableRef) (index : Value) :
    SameAtFirst (narrow b) (loadElement r index : Exec ε Unit) := by
  have hF := blind_sameAtFirst (ε := ε) b
  refine sameAtFirst_readArray fun k a s ha hs => ?_
  dsimp only
  split
  · refine SameAtFirst.endsAtFirst ?_ hs ?_
    · refine hF.bind (hF.allocate a.type .varying) fun slot => hF.reads (fun _ _ => rfl) fun m => ?_
      refine hF.bind (hF.value slot) fun out => hF.bind (hF.store slot _) fun _ => ?_
      split
      · exact hF.push slot
      · exact hF.bind (hF.release [slot]) fun _ => hF.throw _
    · let p := s.machine.pools.allocate a.type .varying s.machine.gridSize
      exact congrArg (fun read => pushRead p.1 read
          ⟨{ s.machine.atFirst with pools := p.2 }, s.host⟩)
        (a.gather_sizeTo_one hs.ones (p.2.value p.1))
  · rw [VariableArray.place?_mapElements]
    refine EndsAtFirst.ofExcept_bind hs fun j => ?_
    rw [VariableArray.getElem?_mapElements]
    cases a.elements[j]? with
    | none => exact ⟨hs, rfl⟩
    | some element =>
      exact (hF.pushCopy element.toValue).endsAtFirst hs
        (pushCopy_sizeTo_one element.toValue hs.gridSize)

omit [Environment ε] in
theorem endsAtFirst_writeArray {s : Session ε} {a a' : VariableArray} (hs : narrow b s)
    (ha : s.machine.locals.array? k = .ok a) (h : a.Related Variable.SameKind a') :
    EndsAtFirst (narrow b) (writeArray k a') (writeArray k (a'.mapElements (·.sizeTo 1))) s := by
  have hdeclared := Locals.Declared.related hs.declared
    (Locals.related_set (getElem?_of_array? ha) (.array h))
  exact ⟨⟨hs.gridSize, hs.ones, hdeclared⟩, congrArg (fun locals => EStateM.Result.ok ()
    (⟨{ s.machine with locals }, s.host⟩ : Session ε))
    (s.machine.locals.sizeTo_setIfInBounds 1 k (.array a')).symm⟩

theorem sameAtFirst_storeElement (i : Instruction) (r : VariableRef) (source index : Value) :
    SameAtFirst (narrow b) (storeElement i r source index : Exec ε Unit) := by
  have hF := blind_sameAtFirst (ε := ε) b
  refine sameAtFirst_readArray fun k a s ha hs => EndsAtFirst.reads ?_
  have hwarn (text : String) : EndsAtFirst (narrow b) (warn i text) (warn i text) s :=
    (hF.warn i text).endsAtFirst hs rfl
  have hmask : s.atFirst.machine.mask = s.machine.mask := rfl
  rw [hmask]
  dsimp only
  rw [VariableArray.type_mapElements, VariableArray.detail_mapElements,
    VariableArray.name_mapElements, VariableArray.place?_mapElements]
  split
  · refine EndsAtFirst.ofExcept_bind hs fun j => ?_
    rw [VariableArray.getElem?_mapElements]
    cases hj : a.elements[j]? with
    | none => exact ⟨hs, rfl⟩
    | some v =>
      have hv := shaped_of_array? hs ha v (Array.mem_of_getElem? hj)
      dsimp only [Option.map_some]
      rw [Variable.assign_sizeTo_one hv]
      cases hw : v.assign source s.machine.mask with
      | error e => exact hwarn e.message
      | ok w =>
        have hset := endsAtFirst_writeArray hs ha
          (VariableArray.related_set hj (Variable.sameKind_of_assign hw))
        rw [VariableArray.mapElements_setIfInBounds] at hset
        exact hset
  · split
    · exact hwarn _
    · split
      · exact hwarn _
      · rw [VariableArray.scatter_sizeTo_one (shaped_of_array? hs ha) hs.ones]
        exact (endsAtFirst_writeArray hs ha (VariableArray.sameKind_scatter ..)).bind
          fun _ => sameAtFirst_ofExcept _

theorem sameAtFirst_query (i : Instruction) (ask : String → Variable → Serving ε (Option Variable)) :
    SameAtFirst (narrow b) (query i ask) := by
  have hF := blind_sameAtFirst (ε := ε) b
  refine hF.bind (hF.ofExcept _) fun r => hF.bind (hF.popValue i) fun v => ?_
  refine sameAtFirst_readVariable r (fun dest => ?_) fun dest s _ => ?_
  · refine hF.reads (fun _ _ => rfl) fun m => hF.bind (hF.serve fun _ _ => trivial) fun found => ?_
    have hp := hF.pushUniform .float (Scalar.ofBool found.isSome : Float32)
    cases found with
    | none => exact hp
    | some v => exact hF.bind (sameAtFirst_assign i r _) fun _ => hp
  · have htype : (dest.sizeTo 1).type = dest.type := Value.type_sizeTo dest.toValue 1
    have hdetail : (dest.sizeTo 1).detail = dest.detail := Value.detail_sizeTo dest.toValue 1
    rw [htype, hdetail]

theorem accesses_sameAtFirst (b : Nat) (i : Instruction) :
    Accesses (SameAtFirst (narrow b) : {α : Type} → Exec ε α → Prop) i := by
  have hF := blind_sameAtFirst (ε := ε) b
  refine ⟨fun _ => ?_, fun _ => ?_, fun _ => ?_, fun _ => ?_, fun _ => sameAtFirst_query i _,
    fun _ => sameAtFirst_query i _⟩
  · exact hF.bind (hF.ofExcept _) fun r => sameAtFirst_readVariable r (fun v => hF.pushCopy _)
      fun v s hs => pushCopy_sizeTo_one v.toValue hs.gridSize
  · exact hF.bind (hF.ofExcept _) fun r => hF.bind (hF.popOne i) fun slot =>
      hF.attempt_release (hF.bind (hF.value slot) fun v => sameAtFirst_loadElement r v) [slot]
  · exact hF.bind (hF.ofExcept _) fun r => hF.bind (hF.popOne i) fun slot =>
      hF.attempt_release (hF.bind (hF.value slot) fun v => sameAtFirst_assign i r v) [slot]
  · refine hF.bind (hF.ofExcept _) fun r => hF.bind (hF.pop i 2) fun slots =>
      hF.attempt_release (hF.bind (hF.values slots) fun vs => ?_) slots
    split
    · exact sameAtFirst_storeElement i r _ _
    · exact hF.pure _

end Locals

theorem sameAtFirst_dispatch (b : Nat) (i : Instruction) :
    SameAtFirst (narrow b) (dispatch i : Exec ε (Option Nat)) :=
  (blind_sameAtFirst b).dispatch Environment.keeps_true i (accesses_sameAtFirst b i)

omit [Environment ε] in
theorem sameAtFirst_proceed (b : Nat) (kind : SegmentKind) (length : Nat) (target? : Option Nat) :
    SameAtFirst (narrow b) (proceed kind length target? : Exec ε Bool) := by
  have hend : SameAtFirst (narrow b) (do return (← machine).position < length : Exec ε Bool) :=
    sameAtFirst_reads (fun _ _ => rfl) fun _ => sameAtFirst_pure _
  cases target? with
  | none => exact hend
  | some target =>
    have hgo : SameAtFirst (narrow b)
        (modifyMachine fun m => { m with position := target } : Exec ε Unit) := fun _ h =>
      ⟨⟨h.gridSize, h.ones, h.declared⟩, rfl⟩
    unfold proceed
    dsimp only
    split
    · exact fun _ h => ⟨h, rfl⟩
    · exact hgo.bind fun _ => hend

/-! A run on a grid of one point -/

section Runs

theorem sameAtFirst_step (b : Nat) : SameAtFirst (Session.Regular 1 b) step := by
  intro s h
  have hstep : Ends step s (fun a t => step s.atFirst = .ok a t.atFirst)
      fun e t => step s.atFirst = .error e t.atFirst := by
    have hs := step_eq s
    have hfirst := step_eq s.atFirst
    dsimp only [Session.atFirst, Machine.atFirst] at hfirst
    unfold Ends
    cases hi : (s.machine.program.segment s.machine.segment).instruction? s.machine.segment
      s.machine.position with
    | none =>
      rw [hi] at hs hfirst
      rw [hs]
      exact hfirst
    | some found =>
      rw [hi] at hs hfirst
      cases found with
      | error e =>
        rw [hs]
        exact hfirst
      | ok i =>
        have hrun := (sameAtFirst_dispatch b i _ (h.narrow_fetched i)).bind
          (sameAtFirst_proceed b s.machine.segment
            (s.machine.program.segment s.machine.segment).length)
        rw [hs]
        exact Ends.imp hrun (fun _ _ ht => hfirst.trans ht.2) fun _ _ ht => hfirst.trans ht.2
  exact ends_and.mp ⟨h.step, hstep⟩

/-- By induction on the number of steps. -/
theorem sameAtFirst_steps (b limit : Nat) : SameAtFirst (Session.Regular 1 b) (steps limit) := by
  induction limit with
  | zero => exact sameAtFirst_pure false
  | succ limit ih =>
    refine (sameAtFirst_step b).bind fun more => ?_
    cases more with
    | true => exact ih
    | false => exact sameAtFirst_pure true

theorem sameAtFirst_note (b : Nat) (level : Text.Level) (text : String) :
    SameAtFirst (Session.Regular 1 b) (serve (note level text)) := fun _ h =>
  ⟨⟨h.gridSize, h.declared, h.states⟩, rfl⟩

theorem sameAtFirst_clearStack (b : Nat) :
    SameAtFirst (Session.Regular 1 b) (modifyMachine Machine.clearStack) := fun _ h =>
  ⟨⟨h.gridSize, h.declared, h.states⟩, rfl⟩

theorem sameAtFirst_checkBalance (b : Nat) (kind : SegmentKind) (before : Pools) :
    SameAtFirst (Session.Regular 1 b) (checkBalance kind before) := by
  have hcheck : SameAtFirst (Session.Regular 1 b) (checkPools before) := by
    refine sameAtFirst_reads (fun _ _ => rfl) fun m => ?_
    split
    · exact sameAtFirst_throw _
    · exact sameAtFirst_pure _
  unfold checkBalance
  refine sameAtFirst_reads (fun _ _ => rfl) fun m => ?_
  dsimp only
  have hclear (text : String) := (sameAtFirst_note b .warn text).bind fun _ =>
    (sameAtFirst_clearStack b).bind fun _ => hcheck
  split
  · split
    · exact (sameAtFirst_throw _).bind fun _ => hclear _
    · exact hclear _
  · exact hcheck

theorem sameAtFirst_run (b : Nat) (kind : SegmentKind) (limit : Nat) :
    SameAtFirst (Session.Regular 1 b) (run kind limit) := by
  unfold run
  refine sameAtFirst_reads (fun _ _ => rfl) fun m => (sameAtFirst_note b .debug _).bind fun _ => ?_
  have hstart : SameAtFirst (Session.Regular 1 b) (modifyMachine (·.start kind)) := fun _ h =>
    ⟨⟨h.gridSize, h.declared, h.states⟩, rfl⟩
  refine hstart.bind fun _ => SameAtFirst.bind (SameAtFirst.attempt ?_) fun finished => ?_
  · refine (sameAtFirst_steps b limit).bind fun done => ?_
    cases done with
    | true => exact (sameAtFirst_checkBalance b kind _).bind fun _ => sameAtFirst_pure true
    | false => exact sameAtFirst_pure false
  · dsimp only
    split
    · exact (sameAtFirst_clearStack b).bind fun _ => sameAtFirst_ofExcept finished
    · exact sameAtFirst_ofExcept finished

end Runs

end Exec

end ShadingMachine
