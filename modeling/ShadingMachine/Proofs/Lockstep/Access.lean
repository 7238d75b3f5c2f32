import ShadingMachine.Proofs.Lockstep.Stores

/-! Instructions that move values between the stack and variables, in two sessions in lockstep. What
is pushed of a variable is known everywhere; what is assigned to one is read at the running points,
and then the variables are the same on both sides again. -/
namespace ShadingMachine

/-- A copy, sized to the grid if it varies. -/
def Value.fitted (n : Nat) (v : Value) : Value :=
  { v with data := if v.isVarying && v.size != n then v.data.resize n else v.data }

theorem Value.size_fitted {v : Value} (n : Nat) (hv : v.detail = .varying) : (v.fitted n).size = n := by
  have hvarying : v.isVarying = true := by
    unfold Value.isVarying
    rw [hv]
    rfl
  show Data.size (if v.isVarying && v.size != n then v.data.resize n else v.data) = n
  by_cases hsize : v.size = n
  · rw [if_neg (by simp [hsize])]
    exact hsize
  · rw [if_pos (by simp [hvarying, hsize])]
    exact Data.size_resize ..

namespace Session

variable {ε : Type} {V : Value → Prop} {K : Known} {hand hand' : List Slot} {s t : Session ε}

theorem stack_eq_of_take {stack slots : List Slot} {k : Nat}
    (h : slots = (stack.take k).reverse) : stack = slots.reverse ++ stack.drop k := by
  rw [h, List.reverse_reverse, List.take_append_drop]

/-- The operands are known at the points given for each, the top one first. -/
def Reads (K : Known) (s : Session ε) (points : List (List Nat)) : Prop :=
  ∀ p ∈ s.machine.stack.zip points, ∀ k ∈ p.2, K p.1 k

/-- A variable that an instruction can read. -/
inductive Holds [Environment ε] (s : Session ε) : Variable → Prop
  | scalar {k : Nat} {v : Variable} : s.machine.locals[k]? = some (.scalar v) → s.Holds v
  | element {k j : Nat} {a : VariableArray} {v : Variable} :
    s.machine.locals[k]? = some (.array a) → a.elements[j]? = some v → s.Holds v
  | graphics {x : GraphicsVariable} {v : Variable} :
    Environment.graphics? s.host.env x = some v → s.Holds v

/-- Copies of the variables fit the grid, and the elements of arrays have the storage of the array. -/
structure Supplies [Environment ε] (V : Value → Prop) (s : Session ε) : Prop where
  copies (v : Variable) : s.Holds v → V (v.toValue.fitted s.machine.gridSize)
  arrays {k : Nat} {a : VariableArray} : s.machine.locals[k]? = some (.array a) →
    ∀ e ∈ a.elements, e.data.storage = a.type.storage

theorem SameFrame.locals {s' : Session ε} (h : s.SameFrame s') :
    s'.machine.locals = s.machine.locals := by
  show s'.machine.frame.locals = s.machine.frame.locals
  rw [h.frame]

theorem Supplies.of_sameFrame [Environment ε] {s' : Session ε} (h : s.Supplies V)
    (hs : s.SameFrame s') : s'.Supplies V where
  copies v hv := by
    rw [hs.gridSize]
    refine h.copies v ?_
    cases hv with
    | scalar hk => exact .scalar (hs.locals ▸ hk)
    | element hk hj => exact .element (hs.locals ▸ hk) hj
    | graphics hx => exact .graphics (hs.host ▸ hx)
  arrays hk := h.arrays (hs.locals ▸ hk)

/-- The locals change in the same way on both sides. -/
theorem InStep.setLocals (h : InStep Eq V K hand hand' s t) (ls : Locals) :
    InStep Eq V K hand hand' { s with machine := { s.machine with locals := ls } }
      { t with machine := { t.machine with locals := ls } } :=
  { h with frame := congrArg (fun m : Machine => { m with locals := ls }) h.frame }

end Session

namespace Exec

open Session

variable {ε : Type} {V : Value → Prop} {K : Known} {hand hand' : List Slot} {s t : Session ε}

theorem pushCopy_run (v : Value) (s : Session ε) : pushCopy v s = .ok ()
    { s with machine := s.machine.put v.type v.detail [] (v.fitted s.machine.gridSize).data } := rfl

theorem pushUniform_run (type : ValueType) (x : type.storage.Elem) (s : Session ε) :
    pushUniform type x s =
      let new := s.machine.pools.allocate type .uniform s.machine.gridSize
      let d := ((new.2.value new.1).set type.storage 0 x).data
      .ok () { s with machine := s.machine.put type .uniform [] d } := rfl

/-- The same copy of a variable is put on both stacks. -/
theorem InStep.copy (h : InStep Eq V K hand hand' s t) (v : Value)
    (hfits : V (v.fitted s.machine.gridSize)) :
    Pushed Eq V K (fun _ => True) v.detail v.detail s.machine.stack t.machine.stack
      { s with machine := s.machine.put v.type v.detail hand (v.fitted s.machine.gridSize).data }
      { t with machine :=
        t.machine.put v.type v.detail hand' (v.fitted s.machine.gridSize).data } :=
  h.put (.refl Detail.allows_eq _ _) hfits hfits

theorem paired_pushCopy (h : InStep Eq V K [] [] s t) (v : Value)
    (hfits : V (v.fitted s.machine.gridSize)) :
    Paired (pushCopy v) s (pushCopy v) t fun _ s' _ t' =>
      Pushed Eq V K (fun _ => True) v.detail v.detail s.machine.stack t.machine.stack s' t' := by
  unfold Paired
  rw [pushCopy_run, pushCopy_run, h.gridSize]
  exact InStep.copy h v hfits

theorem paired_pushUniform (h : InStep Eq V K [] [] s t) (type : ValueType)
    (x : type.storage.Elem) :
    Paired (pushUniform type x) s (pushUniform type x) t fun _ s' _ t' =>
      Pushed Eq V K (fun _ => True) .uniform .uniform s.machine.stack t.machine.stack s' t' := by
  have hshape := h.accounts.isShaped_allocate type .uniform s.machine.gridSize
  have hshape' := h.accounts'.isShaped_allocate type .uniform t.machine.gridSize
  unfold Paired
  rw [pushUniform_run, pushUniform_run]
  exact h.put (hshape.agrees_set_uniform hshape' rfl rfl rfl x)
    (h.fitting.of_shaped (hshape.set _ 0 x)) (h.fitting.of_shaped (h.gridSize ▸ hshape'.set _ 0 x))

/-- The value on top is taken, and it is known where it is read. -/
theorem paired_popKnown (h : InStep Eq V K [] [] s t) (i : Instruction) {points : List Nat}
    (hreads : s.Reads K [points]) :
    Paired (popValue i) s (popValue i) t fun v s' w t' =>
      v.Agrees Eq (· ∈ points) w ∧ s.SameFrame s' ∧ InStep Eq V K [] [] s' t' := by
  refine (paired_popValue h i).imp fun v s' w t' h' => ?_
  obtain ⟨slot, hs, -, -, hvw, hframe, h'⟩ := h'
  exact ⟨hvw.imp (hreads (slot, points) (by rw [hs]; simp)), hframe, h'⟩

theorem paired_dup (h : InStep Eq V K [] [] s t) (i : Instruction) :
    Paired (dup i) s (dup i) t fun _ s' _ t' => ∃ top rest rest', s.machine.stack = top :: rest ∧
      Pushed Eq V K (K top) top.detail top.detail s.machine.stack rest' s' t' := by
  have hstack := h.stack
  unfold dup
  rw [paired_machine_bind]
  generalize hs : s.machine.stack = stack at hstack
  generalize ht : t.machine.stack = stack' at hstack
  cases hstack with
  | nil => exact paired_throw _ h.sameOutside
  | @cons a b rest rest' hab _ =>
    obtain ⟨type, detail, index⟩ := b
    obtain rfl : a.type = type := hab.value.type
    obtain rfl : a.detail = detail := hab.value.detail
    have hput := h.put hab.value hab.fits hab.fits'
    rw [hs] at hput
    exact ⟨a, rest, t.machine.stack, rfl, hput⟩

/-- Whatever becomes of the slots in hand, they are given back. -/
theorem paired_attempt_release {x y : Exec ε Unit} {slots slots' : List Slot}
    (h : Paired x s y t fun _ s' _ t' => InStep Eq V K slots slots' s' t') :
    Paired (do let done ← attempt x; release slots; ofExcept done) s
      (do let done ← attempt y; release slots'; ofExcept done) t fun _ s' _ t' =>
        InStep Eq V K [] [] s' t' :=
  h.attempt_bind (fun _ _ _ _ h' => h'.release) fun _ _ _ houtside =>
    ⟨rfl, houtside.locals, houtside.host⟩

section Variables

variable [Environment ε]

theorem paired_readVariable (h : InStep Eq V K hand hand' s t) (r : VariableRef) :
    Paired (readVariable r) s (readVariable r) t fun v s' w t' =>
      v = w ∧ s' = s ∧ t' = t ∧ s.Holds v := by
  cases r with
  | declared k =>
    unfold readVariable
    rw [paired_machine_bind, h.locals]
    cases hv : s.machine.locals.scalar? k with
    | error e => exact ⟨rfl, h.sameOutside⟩
    | ok v => exact ⟨rfl, rfl, rfl, .scalar (getElem?_of_scalar? hv)⟩
  | graphics x =>
    unfold readVariable
    rw [paired_environment_bind, h.host]
    cases hv : Environment.graphics? s.host.env x with
    | none => exact ⟨rfl, h.sameOutside⟩
    | some v => exact ⟨rfl, rfl, rfl, .graphics hv⟩

theorem paired_pushVariable (h : InStep Eq V K [] [] s t) (hV : s.Supplies V) (i : Instruction) :
    Paired (pushVariable i) s (pushVariable i) t fun _ s' _ t' => ∃ detail,
      Pushed Eq V K (fun _ => True) detail detail s.machine.stack t.machine.stack s' t' := by
  unfold pushVariable
  refine Paired.ofExcept_bind h.sameOutside fun r _ => ?_
  refine (paired_readVariable h r).bind fun v s' w t' hv => ?_
  obtain ⟨rfl, rfl, rfl, hv⟩ := hv
  exact (paired_pushCopy h _ (hV.copies v hv)).imp fun _ _ _ _ h' => ⟨_, h'⟩

/-- The same variable is written on both sides. -/
theorem paired_writeVariable (h : InStep Eq V K hand hand' s t) (r : VariableRef) (v : Variable) :
    Paired (writeVariable r v) s (writeVariable r v) t fun _ s' _ t' =>
      InStep Eq V K hand hand' s' t' := by
  cases r with
  | declared k =>
    have hset := h.setLocals (s.machine.locals.setIfInBounds k (.scalar v))
    show InStep Eq V K hand hand' _ { t with machine := { t.machine with
      locals := t.machine.locals.setIfInBounds k (.scalar v) } }
    rw [h.locals]
    exact hset
  | graphics x =>
    have hserve := h.serve { s.host with env := Environment.setVariable s.host.env x v }
    show InStep Eq V K hand hand' _ { t with host := { t.host with
      env := Environment.setVariable t.host.env x v } }
    rw [h.host]
    exact hserve

/-- A value is assigned that is known at the running points. -/
theorem paired_assign (h : InStep Eq V K hand hand' s t)
    (hmask : s.machine.mask.size ≤ s.machine.gridSize) (i : Instruction) (r : VariableRef)
    {v w : Value} {P : Nat → Prop} (hvw : v.Agrees Eq P w) (hv : V v) (hw : V w)
    (hP : ∀ k ∈ s.machine.mask.ones, P k) :
    Paired (assign i r v) s (assign i r w) t fun _ s' _ t' => InStep Eq V K hand hand' s' t' := by
  unfold assign
  refine (paired_readVariable h r).bind fun x s' y t' hx => ?_
  obtain ⟨rfl, rfl, rfl, -⟩ := hx
  rw [paired_machine_bind, h.mask, hvw.assign h.fitting hv hw hmask hP]
  cases x.assign w s'.machine.mask with
  | ok x' => exact paired_writeVariable h r x'
  | error e => exact (paired_serve h _).imp fun _ _ _ _ h' => h'.2.2.2

theorem paired_popVariable (h : InStep Eq V K [] [] s t)
    (hmask : s.machine.mask.size ≤ s.machine.gridSize) (i : Instruction)
    (hreads : s.Reads K [s.machine.mask.ones]) :
    Paired (popVariable i) s (popVariable i) t fun _ s' _ t' => InStep Eq V K [] [] s' t' := by
  unfold popVariable
  refine Paired.ofExcept_bind h.sameOutside fun r _ => ?_
  refine (paired_popOne h i).bind fun slot s' slot' t' h' => ?_
  obtain ⟨hs, -, -, hframe, h'⟩ := h'
  refine paired_attempt_release ?_
  rw [paired_value_bind]
  obtain ⟨hv, -⟩ := List.forall₂_cons.mp h'.hand
  have hread : ∀ k ∈ s.machine.mask.ones, K slot k :=
    hreads (slot, s.machine.mask.ones) (by rw [hs]; simp)
  refine paired_assign h' ?_ i r hv.value hv.fits hv.fits' ?_
  · rw [hframe.mask, hframe.gridSize]
    exact hmask
  · rw [hframe.mask]
    exact hread

end Variables

section Arrays

theorem paired_readArray (h : InStep Eq V K hand hand' s t) (r : VariableRef) :
    Paired (readArray r) s (readArray r) t fun a s' b t' =>
      a = b ∧ s' = s ∧ t' = t ∧ s.machine.locals[a.1]? = some (.array a.2) := by
  cases r with
  | declared k =>
    unfold readArray
    rw [paired_machine_bind, h.locals]
    cases ha : s.machine.locals.array? k with
    | error e => exact ⟨rfl, h.sameOutside⟩
    | ok a => exact ⟨rfl, rfl, rfl, getElem?_of_array? ha⟩
  | graphics x => exact ⟨rfl, h.sameOutside⟩

theorem paired_writeArray (h : InStep Eq V K hand hand' s t) (k : Nat) (a : VariableArray) :
    Paired (writeArray k a) s (writeArray k a) t fun _ s' _ t' => InStep Eq V K hand hand' s' t' := by
  have hset := h.setLocals (s.machine.locals.setIfInBounds k (.array a))
  show InStep Eq V K hand hand' _ { t with machine := { t.machine with
    locals := t.machine.locals.setIfInBounds k (.array a) } }
  rw [h.locals]
  exact hset

/-- A value is assigned to elements of an array, by indices that are known as well. -/
theorem paired_storeElement (h : InStep Eq V K hand hand' s t)
    (hmask : s.machine.mask.size ≤ s.machine.gridSize) (i : Instruction) (r : VariableRef)
    {v w index index' : Value} {P Q : Nat → Prop} (hvw : v.Agrees Eq P w) (hv : V v) (hw : V w)
    (hP : ∀ k ∈ s.machine.mask.ones, P k) (hindex : index.Agrees Eq Q index')
    (hQ : ∀ k ∈ s.machine.mask.ones, Q k) :
    Paired (storeElement i r v index) s (storeElement i r w index') t fun _ s' _ t' =>
      InStep Eq V K hand hand' s' t' := by
  have hwarn (text : String) : Paired (warn i text) s (warn i text) t fun _ s' _ t' =>
      InStep Eq V K hand hand' s' t' := (paired_serve h _).imp fun _ _ _ _ h' => h'.2.2.2
  unfold storeElement
  refine (paired_readArray h r).bind fun p s' q t' ha => ?_
  obtain ⟨rfl, rfl, rfl, -⟩ := ha
  rw [paired_machine_bind, h.mask]
  dsimp only
  have hdetail : index.isVarying = index'.isVarying := congrArg Detail.isVarying hindex.detail
  rw [← hdetail, hvw.type]
  split
  · rename_i hu
    have hu : index.detail = .uniform := Value.isVarying_eq_false_iff.mp (by simpa using hu)
    rw [hindex.eq_of_detail hu]
    refine Paired.ofExcept_bind h.sameOutside fun k _ => ?_
    cases p.2.elements[k]? with
    | none => exact h
    | some x =>
      dsimp only
      rw [hvw.assign h.fitting hv hw hmask hP]
      cases x.assign w s'.machine.mask with
      | ok x' => exact paired_writeArray h _ _
      | error e => exact hwarn _
  split
  · exact hwarn _
  split
  · exact hwarn _
  · have hscatter : p.2.scatter index v s'.machine.mask.ones =
        p.2.scatter index' w s'.machine.mask.ones :=
      VariableArray.scatter_congr _ (fun k hk => hindex.get k (hQ k hk) .float) hvw.storage
        (fun k hk => hvw.get k (hP k hk)) _
    rw [hscatter]
    refine (paired_writeArray h _ _).bind fun _ s'' _ t'' h'' => ?_
    cases (p.2.scatter index' w s'.machine.mask.ones).2 with
    | error e => exact ⟨rfl, h''.sameOutside⟩
    | ok _ => exact h''

theorem paired_popElement (h : InStep Eq V K [] [] s t)
    (hmask : s.machine.mask.size ≤ s.machine.gridSize) (i : Instruction)
    (hreads : s.Reads K [s.machine.mask.ones, s.machine.mask.ones]) :
    Paired (popElement i) s (popElement i) t fun _ s' _ t' => InStep Eq V K [] [] s' t' := by
  unfold popElement
  refine Paired.ofExcept_bind h.sameOutside fun r _ => ?_
  refine (paired_pop h i 2).bind fun slots s' slots' t' h' => ?_
  obtain ⟨⟨hslots, hlength, -⟩, -, hframe, h'⟩ := h'
  refine paired_attempt_release ?_
  obtain ⟨a, b, rfl⟩ := List.length_eq_two.mp hlength
  obtain ⟨a', rest', ha, hrest, rfl⟩ := List.forall₂_cons_left_iff.mp h'.hand
  obtain ⟨b', rest', hb, hnil, rfl⟩ := List.forall₂_cons_left_iff.mp hrest
  obtain rfl := List.forall₂_nil_left_iff.mp hnil
  obtain ⟨hb₀, ha₀⟩ : (∀ k ∈ s.machine.mask.ones, K b k) ∧ ∀ k ∈ s.machine.mask.ones, K a k := by
    rw [Reads, stack_eq_of_take hslots] at hreads
    simpa using hreads
  rw [← hframe.mask] at ha₀ hb₀
  rw [paired_values_bind]
  refine paired_storeElement h' ?_ i r ha.value ha.fits ha.fits' ha₀ hb.value hb₀
  rw [hframe.mask, hframe.gridSize]
  exact hmask

/-- The part of a load that reads elements by varying indices into a new slot. -/
def gather (a : VariableArray) (index : Value) : Exec ε Unit := do
  let slot ← allocate a.type .varying
  let (out, done) := a.gather index (← machine).mask.ones (← value slot)
  store slot out.data
  match done with
  | .ok () => push slot
  | .error e =>
    release [slot]
    throw e

theorem gather_run (a : VariableArray) (index : Value) (s : Session ε) :
    gather a index s =
      let new := s.machine.pools.allocate a.type .varying s.machine.gridSize
      let read := a.gather index s.machine.mask.ones (new.2.value new.1)
      match read.2 with
      | .ok () => .ok () { s with machine := s.machine.put a.type .varying [] read.1.data }
      | .error e => .error e { s with machine := { s.machine with
          pools := (new.2.store new.1 read.1.data).release new.1 } } := by
  have hread (slot : Slot) (pools : Pools) (read : Value × Except ExecError Unit) :
      (do store slot read.1.data
          match read.2 with
          | .ok () => push slot
          | .error e =>
            release [slot]
            throw e : Exec ε Unit) { s with machine := { s.machine with pools } } =
        match read.2 with
        | .ok () => .ok () { s with machine := { s.machine with
            pools := pools.store slot read.1.data, stack := slot :: s.machine.stack } }
        | .error e => .error e { s with machine := { s.machine with
            pools := (pools.store slot read.1.data).release slot } } := by
    cases read.2 <;> rfl
  exact hread _ _ _

theorem paired_gather {slot slot' : Slot} (h : InStep Eq V K [slot] [slot'] s t) (a : VariableArray)
    (ha : ∀ e ∈ a.elements, e.data.storage = a.type.storage) {index index' : Value}
    (hindex : ∀ k ∈ s.machine.mask.ones, index.getFloat k = index'.getFloat k) :
    Paired (gather a index) s (gather a index') t fun _ s' _ t' =>
      Pushed Eq V K (· ∈ s.machine.mask.ones) .varying .varying s.machine.stack t.machine.stack
        { s' with machine := { s'.machine with pools := s'.machine.pools.releaseAll [slot] } }
        { t' with machine := { t'.machine with pools := t'.machine.pools.releaseAll [slot'] } } := by
  have hshape := h.accounts.isShaped_allocate a.type .varying s.machine.gridSize
  have hshape' := h.accounts'.isShaped_allocate a.type .varying t.machine.gridSize
  rw [h.gridSize] at hshape'
  have hsame := VariableArray.agrees_gather ha s.machine.mask.ones hindex
    (hshape.agrees_nowhere hshape' rfl rfl rfl) hshape.storage (hshape.size.trans hshape'.size.symm)
  have hkind := VariableArray.sameKind_gather (a := a) index s.machine.mask.ones
  have hkind' := VariableArray.sameKind_gather (a := a) index' s.machine.mask.ones
  have hfits {out : Value} (hout : out.IsShaped s.machine.gridSize) {v : Value}
      (hv : out.SameKind v) : V ⟨out.type, out.detail, v.data⟩ :=
    h.fitting.of_shaped ⟨hv.storage.trans hout.storage, hv.size.trans hout.size⟩
  unfold Paired
  rw [gather_run, gather_run, h.mask, h.gridSize]
  dsimp only
  rw [← hsame.1]
  cases hdone : (a.gather index s.machine.mask.ones _).2 with
  | error e => exact ⟨rfl, h.locals, h.host⟩
  | ok u =>
    have hput := h.put (((hsame.2 hdone).imp fun k hk => .inr hk).data (hkind _).type
      (hkind _).detail (hkind' _).detail) (hfits hshape (hkind _)) (hfits hshape' (hkind' _))
    exact hput

theorem paired_loadElement [Environment ε] {slot slot' : Slot}
    (h : InStep Eq V K [slot] [slot'] s t) (hV : s.Supplies V) (r : VariableRef)
    (hread : ∀ k ∈ s.machine.mask.ones, K slot k) :
    Paired (loadElement r (s.machine.pools.value slot)) s
      (loadElement r (t.machine.pools.value slot')) t fun _ s' _ t' => ∃ detail,
        Pushed Eq V K (fun k => slot.detail = .varying → k ∈ s.machine.mask.ones) detail detail
          s.machine.stack t.machine.stack
          { s' with machine := { s'.machine with pools := s'.machine.pools.releaseAll [slot] } }
          { t' with machine := { t'.machine with pools := t'.machine.pools.releaseAll [slot'] } } := by
  obtain ⟨hindex, -⟩ := List.forall₂_cons.mp h.hand
  unfold loadElement
  refine (paired_readArray h r).bind fun p s' q t' ha => ?_
  obtain ⟨rfl, hs, ht, ha⟩ := ha
  rw [hs, ht]
  obtain ⟨n, a⟩ := p
  dsimp only at ha ⊢
  have hvarying : (t.machine.pools.value slot').isVarying =
      (s.machine.pools.value slot).isVarying := congrArg Detail.isVarying hindex.value.detail.symm
  rw [hvarying]
  cases hd : slot.detail with
  | uniform =>
    have hu : (s.machine.pools.value slot).isVarying = false :=
      Value.isVarying_eq_false_iff.mpr hd
    rw [if_neg (by simp [hu]), if_neg (by simp [hu]), hindex.value.eq_of_detail hd]
    refine Paired.ofExcept_bind h.sameOutside fun k hk => ?_
    obtain ⟨e, he⟩ : ∃ e, a.elements[k]? = some e :=
      ⟨_, Array.getElem?_eq_getElem (VariableArray.lt_of_place? hk)⟩
    rw [he]
    dsimp only
    unfold Paired
    rw [pushCopy_run, pushCopy_run, h.gridSize]
    exact ⟨e.detail, (InStep.copy h e.toValue (hV.copies e (.element ha he))).imp fun _ _ => trivial⟩
  | varying =>
    have hv : (s.machine.pools.value slot).isVarying = true := by
      simp [Value.isVarying, hd, Detail.isVarying]
    rw [if_pos hv, if_pos hv]
    exact (paired_gather h a (hV.arrays ha) fun k hk => hindex.value.get k (hread k hk) .float).imp
      fun _ _ _ _ hp => ⟨_, hp.imp fun _ hk => hk rfl⟩

theorem paired_pushElement [Environment ε] (h : InStep Eq V K [] [] s t) (hV : s.Supplies V)
    (i : Instruction) (hreads : s.Reads K [s.machine.mask.ones]) :
    Paired (pushElement i) s (pushElement i) t fun _ s' _ t' => ∃ index rest rest' detail,
      s.machine.stack = index :: rest ∧
        Pushed Eq V K (fun k => index.detail = .varying → k ∈ s.machine.mask.ones) detail detail
          rest rest' s' t' := by
  unfold pushElement
  refine Paired.ofExcept_bind h.sameOutside fun r _ => ?_
  refine (paired_popOne h i).bind fun slot s' slot' t' h' => ?_
  obtain ⟨hs, -, -, hframe, h'⟩ := h'
  have hread : ∀ k ∈ s'.machine.mask.ones, K slot k := by
    rw [hframe.mask]
    exact hreads (slot, s.machine.mask.ones) (by rw [hs]; simp)
  have hload := paired_loadElement h' (hV.of_sameFrame hframe) r hread
  refine (paired_value_bind.mpr hload).attempt_bind (fun _ s'' _ t'' hp => ?_)
    fun _ _ _ houtside => ⟨rfl, houtside.locals, houtside.host⟩
  obtain ⟨detail, hp⟩ := hp
  rw [hframe.mask] at hp
  exact ⟨slot, _, _, detail, hs, hp⟩

end Arrays

end Exec

end ShadingMachine
