import ShadingMachine.Proofs.Arrays.Elements
import ShadingMachine.Proofs.Storage.Runs

/-! The two instructions that store into a varying array and load from one, each by an index on the
stack. A load finds at every running point what a store has left there. -/
namespace ShadingMachine

/-- A machine on a grid of `n` points, with locals that are declared for at least as many: the mask is
for the grid, and the operands are of their types and sized to it. -/
structure Machine.Sized (n b : Nat) (m : Machine) : Prop where
  gridSize : m.gridSize = n
  declared : m.Declared b
  le : n ≤ b
  mask : m.mask.size = n ∧ m.mask.Tidy
  accounts : m.Accounts
  stack : ∀ slot ∈ m.stack, (m.pools.value slot).IsShaped n

theorem Session.Typed.sized {n b : Nat} {s : Session Grid} (h : s.Typed n b) (hle : n ≤ b) :
    s.machine.Sized n b :=
  ⟨h.gridSize, h.declared, hle, h.mask, h.accounts, h.stack⟩

namespace Machine

variable {n b k : Nat} {m : Machine} {a a' : VariableArray}

theorem Declared.varying (h : m.Declared b) (ha : m.locals[k]? = some (.array a))
    (hd : a.detail = .varying) : a.Varying b := by
  obtain ⟨d, -, hdeclared⟩ := Locals.Declared.get h ha
  cases hdeclared with
  | array _ htype hdetail helements =>
    refine ⟨hd, fun v hv => ?_⟩
    rw [htype, ← hd, hdetail]
    exact helements v hv

theorem Sized.lt_of_mem_ones (h : m.Sized n b) {p : Nat} (hp : p ∈ m.mask.ones) : p < n :=
  h.mask.1 ▸ h.mask.2.lt_of_mem_ones hp

/-- The machine when two operands have been taken and an array has taken the place of another. -/
def stored (m : Machine) (k : Nat) (a : VariableArray) (slots rest : List Slot) : Machine :=
  { m with
    stack := rest
    pools := m.pools.releaseAll slots
    locals := m.locals.setIfInBounds k (.array a) }

theorem Sized.stored {index source : Slot} {rest : List Slot} (h : m.Sized n b)
    (hstack : m.stack = index :: source :: rest) (ha : m.locals[k]? = some (.array a))
    (hkind : a.Related Variable.SameKind a') : (m.stored k a' [source, index] rest).Sized n b where
  gridSize := h.gridSize
  declared := Locals.Declared.related h.declared (Locals.related_set ha (.array hkind))
  le := h.le
  mask := h.mask
  accounts := by
    have hslots : (([source, index] : List Slot) + rest : Multiset Slot) = m.stack := by
      rw [hstack, Multiset.coe_add, Multiset.coe_eq_coe]
      exact List.Perm.swap index source rest
    have haccounts : m.pools.Accounts m.stack := h.accounts
    rw [← hslots] at haccounts
    exact haccounts.releaseAll
  stack slot hslot := by
    show (Pools.value (m.pools.releaseAll _) slot).IsShaped n
    rw [Pools.value_releaseAll]
    refine h.stack slot ?_
    rw [hstack]
    exact List.mem_cons_of_mem _ (List.mem_cons_of_mem _ hslot)

end Machine

/-- An array is in a local, and on top of the stack is an index that selects the same elements as
another one. -/
structure Session.Loads {ε : Type} (k : Nat) (a : VariableArray) (x : Value) (running : Mask)
    (again : Slot) (rest : List Slot) (t : Session ε) : Prop where
  sized : ∃ n b, t.machine.Sized n b
  mask : t.machine.mask = running
  array : t.machine.locals[k]? = some (.array a)
  stack : t.machine.stack = again :: rest
  detail : again.detail = x.detail
  indexAt : ∀ p ∈ x.points running, (t.machine.pools.value again).indexAt p = x.indexAt p

namespace Session.Loads

variable {ε : Type} {k : Nat} {a : VariableArray} {x : Value} {mask : Mask} {again : Slot}
  {rest : List Slot} {t : Session ε} (h : t.Loads k a x mask again rest)
include h

theorem points_eq : (t.machine.pools.value again).points mask = x.points mask := by
  have hdetail : (t.machine.pools.value again).detail = x.detail := h.detail
  unfold Value.points Value.isVarying
  rw [hdetail]

theorem inBounds_iff {points : List Nat} (hpoints : ∀ p ∈ points, p ∈ x.points mask) :
    a.InBounds (t.machine.pools.value again) points ↔ a.InBounds x points :=
  forall₂_congr fun p hp => by rw [h.indexAt p (hpoints p hp)]

/-- A uniform index is read at one point, but selects the same element for all of them. -/
theorem read_eq (s : Storage) {p : Nat} (hp : p ∈ mask.ones) :
    a.read (t.machine.pools.value again) s p = a.read x s p := by
  have hindex : (t.machine.pools.value again).indexAt p = x.indexAt p := by
    cases hd : x.detail with
    | uniform =>
      rw [Value.indexAt_of_uniform hd, Value.indexAt_of_uniform (h.detail.trans hd)]
      exact h.indexAt 0 (Value.zero_mem_points hd mask)
    | varying => exact h.indexAt p (by rwa [Value.points_varying hd])
  rw [VariableArray.read, hindex, VariableArray.read]

end Session.Loads

namespace Exec

variable {ε : Type} {α : Type} {s : Session ε} {Q : Unit → Session ε → Prop}
  {E : ExecError → Session ε → Prop}

theorem ends_pop_two {i : Instruction} {index source : Slot} {rest : List Slot}
    (hstack : s.machine.stack = index :: source :: rest) {Q : List Slot → Session ε → Prop} :
    Ends (pop i 2) s Q E ↔
      Q [source, index] { s with machine := { s.machine with stack := rest } } := by
  have hpop : pop i 2 s = .ok [source, index] _ := pop_run (i := i) [index, source] hstack
  unfold Ends
  rw [hpop]

theorem ends_readArray {k : Nat} {a : VariableArray} (ha : s.machine.locals[k]? = some (.array a))
    {Q : Nat × VariableArray → Session ε → Prop} :
    Ends (readArray (.declared k)) s Q E ↔ Q (k, a) s := by
  have harray : s.machine.locals.array? k = .ok a := by
    unfold Locals.array?
    rw [ha]
    rfl
  simp only [readArray, ends_bind, ends_machine, harray, ends_ofExcept_ok, ends_pure]

theorem ends_popElement {i : Instruction} {r : VariableRef} {index source : Slot} {rest : List Slot}
    (hr : i.variableRef = .ok r) (hstack : s.machine.stack = index :: source :: rest) :
    Ends (popElement i) s Q E ↔
      Ends (storeElement i r (s.machine.pools.value source) (s.machine.pools.value index))
        { s with machine := { s.machine with stack := rest } }
        (fun u t => Q u { t with machine :=
          { t.machine with pools := t.machine.pools.releaseAll [source, index] } })
        fun e t => E e { t with machine :=
          { t.machine with pools := t.machine.pools.releaseAll [source, index] } } := by
  unfold popElement
  rw [hr, ends_bind, ends_ofExcept_ok, ends_bind, ends_pop_two hstack, ends_bind, ends_attempt,
    ends_bind, ends_values]
  rfl

theorem ends_pushElement {i : Instruction} {r : VariableRef} {index : Slot} {rest : List Slot}
    (hr : i.variableRef = .ok r) (hstack : s.machine.stack = index :: rest) :
    Ends (pushElement i) s Q E ↔
      Ends (loadElement r (s.machine.pools.value index))
        { s with machine := { s.machine with stack := rest } }
        (fun u t => Q u { t with machine :=
          { t.machine with pools := t.machine.pools.releaseAll [index] } })
        fun e t => E e { t with machine :=
          { t.machine with pools := t.machine.pools.releaseAll [index] } } := by
  unfold pushElement
  rw [hr, ends_bind, ends_ofExcept_ok, ends_bind, ends_popOne hstack, ends_bind, ends_attempt,
    ends_bind, ends_value]
  rfl

/-- A machine that runs is so between its instructions. -/
theorem sized_after_steps {m : Machine} (h : m.AtRest) (host : Host Grid)
    (hhost : host.env.WellKept) (k : Nat)
    (hok : Ends (steps k) (started (Session.ready ⟨m, host⟩) .code) (fun _ _ => True)
      fun _ _ => False) :
    ((steps k).after (started (Session.ready ⟨m, host⟩) .code)).machine.Sized
      (Environment.pointCount host.env) (Environment.pointCount host.env) := by
  have htyped := ends_steps_typed k ((h.typed_ready hhost).started .code)
    (Grid.pointCount_pos _)
  obtain ⟨done, t, hrun, -⟩ := hok.exists_ok
  have hafter : (steps k).after (started (Session.ready ⟨m, host⟩) .code) = t := by
    unfold after
    rw [hrun]
  rw [hafter]
  exact (htyped.of_ok hrun).sized le_rfl

section Elements

variable {i : Instruction} {n b k p : Nat} {a : VariableArray} {index source : Value}
  {points points' : List Nat}

theorem ends_storeElement_of_varying (ha : s.machine.locals[k]? = some (.array a))
    (hvarying : a.detail = .varying) (hstorage : a.type.storage = source.type.storage)
    (hd : index.detail = .varying) :
    Ends (storeElement i (.declared k) source index) s Q E ↔
      let written := a.scatter index source (index.points s.machine.mask)
      Ends (ofExcept written.2)
        { s with machine :=
          { s.machine with locals := s.machine.locals.setIfInBounds k (.array written.1) } } Q E := by
  have hdetail : a.detail.isVarying = true := by rw [hvarying]; rfl
  unfold storeElement
  rw [ends_bind, ends_readArray ha, ends_bind, ends_machine]
  dsimp only
  rw [Value.isVarying_of_varying hd, Bool.not_true, if_neg Bool.false_ne_true,
    if_neg (not_not.mpr hstorage), hdetail, Bool.not_true, if_neg Bool.false_ne_true,
    Value.points_varying hd, ends_bind]
  rfl

theorem ends_loadElement_of_varying (ha : s.machine.locals[k]? = some (.array a))
    (hd : index.detail = .varying) :
    Ends (loadElement (.declared k) index) s Q E ↔ Ends (gather a index) s Q E := by
  unfold loadElement
  rw [ends_bind, ends_readArray ha]
  dsimp only
  rw [Value.isVarying_of_varying hd, if_pos rfl]
  rfl

/-- At a uniform index a value is assigned, at a varying one it is scattered. -/
theorem ends_storeElement (ha : s.machine.locals[k]? = some (.array a)) (hvarying : a.Varying b)
    (hle : n ≤ b) (hmask : s.machine.mask.size = n ∧ s.machine.mask.Tidy)
    (hsource : source.IsShaped n) (hstorage : a.type.storage = source.type.storage)
    (hindex : a.InBounds index (index.points s.machine.mask)) :
    Ends (storeElement i (.declared k) source index) s
      (fun _ t => ∃ a', a.Stores index source a.type.storage s.machine.mask.ones a' ∧
        t = { s with machine :=
          { s.machine with locals := s.machine.locals.setIfInBounds k (.array a') } })
      fun _ _ => False := by
  cases hd : index.detail with
  | uniform =>
    unfold storeElement
    rw [ends_bind, ends_readArray ha, ends_bind, ends_machine]
    dsimp only
    have hu : index.isVarying = false := Value.isVarying_eq_false_iff.mpr hd
    have hbounds := hindex 0 (Value.zero_mem_points hd _)
    obtain ⟨e, he⟩ := VariableArray.exists_element hbounds
    have hkind := hvarying.elements e (Array.mem_of_getElem? he)
    have haccepts : e.Accepts source :=
      ⟨by rw [hkind.type_eq, hstorage], fun _ => hkind.detail_eq⟩
    rw [hu, Bool.not_false, if_pos rfl, ends_bind, VariableArray.place?_of_bounds hbounds,
      ends_ofExcept_ok, he]
    dsimp only
    rw [Variable.assign_of_accepts_eq_after haccepts]
    exact ⟨_, VariableArray.stores_assign hvarying hstorage hsource hle hmask hd hbounds.1 he, rfl⟩
  | varying =>
    have hread := Value.points_varying hd s.machine.mask
    have hlt : ∀ q ∈ s.machine.mask.ones, q < b := fun q hq =>
      Nat.lt_of_lt_of_le (hmask.1 ▸ hmask.2.lt_of_mem_ones hq) hle
    obtain ⟨a', hscatter, hstores⟩ := VariableArray.exists_scatter hvarying rfl
      (hsource.storage.trans hstorage.symm) hlt (hread ▸ hindex)
    refine (ends_storeElement_of_varying ha hvarying.detail hstorage hd).mpr ?_
    rw [hread, hscatter]
    exact ⟨a', hstores, rfl⟩

theorem ends_storeElement_of_not_bounds (ha : s.machine.locals[k]? = some (.array a))
    (hvarying : a.detail = .varying) (hstorage : a.type.storage = source.type.storage)
    (hpoints : index.points s.machine.mask = points ++ p :: points')
    (hindex : a.InBounds index points)
    (hp : ¬(0 ≤ index.indexAt p ∧ index.indexAt p < a.length)) :
    Ends (storeElement i (.declared k) source index) s (fun _ _ => False)
      fun e _ => e = .arrayIndex a.name (index.indexAt p) a.length := by
  cases hd : index.detail with
  | uniform =>
    unfold storeElement
    rw [ends_bind, ends_readArray ha, ends_bind, ends_machine]
    dsimp only
    have hu : index.isVarying = false := Value.isVarying_eq_false_iff.mpr hd
    have hmem : p ∈ index.points s.machine.mask := by simp [hpoints]
    obtain rfl := Value.eq_zero_of_mem_points hd hmem
    rw [hu, Bool.not_false, if_pos rfl, ends_bind, VariableArray.place?_of_not_bounds hp]
    rfl
  | varying =>
    refine (ends_storeElement_of_varying ha hvarying hstorage hd).mpr ?_
    rw [hpoints]
    dsimp only
    rw [VariableArray.scatter_of_not_bounds hindex hp]
    rfl

/-- What the running points find is put on the stack. -/
theorem ends_loadElement {taken : Multiset Slot} (ha : s.machine.locals[k]? = some (.array a))
    (hvarying : a.Varying b) (hle : s.machine.gridSize ≤ b)
    (hmask : ∀ p ∈ s.machine.mask.ones, p < s.machine.gridSize)
    (haccounts : s.machine.pools.Accounts taken)
    (hindex : a.InBounds index (index.points s.machine.mask)) :
    Ends (loadElement (.declared k) index) s
      (fun _ t => ∃ d, t = { s with machine := s.machine.put a.type .varying [] d } ∧
        ∀ p ∈ s.machine.mask.ones, (Value.mk a.type .varying d).get a.type.storage p =
          a.read index a.type.storage p)
      fun _ _ => False := by
  cases hd : index.detail with
  | uniform =>
    unfold loadElement
    rw [ends_bind, ends_readArray ha]
    dsimp only
    have hu : index.isVarying = false := Value.isVarying_eq_false_iff.mpr hd
    have hbounds := hindex 0 (Value.zero_mem_points hd _)
    obtain ⟨e, he⟩ := VariableArray.exists_element hbounds
    have hkind := hvarying.elements e (Array.mem_of_getElem? he)
    have hsize : e.size = max b 1 := hkind.size_varying hkind.detail_eq
    rw [hu, if_neg Bool.false_ne_true, ends_bind, VariableArray.place?_of_bounds hbounds,
      ends_ofExcept_ok, he]
    dsimp only
    refine ends_of_ok (pushCopy_run _ _) ?_
    rw [hkind.type_eq, hkind.detail_eq]
    refine ⟨_, rfl, fun p hp => ?_⟩
    have hlt := hmask p hp
    have hget := Value.get_fitted hkind.detail_eq hlt (by omega) a.type.storage
    have hfitted : (e.toValue.fitted s.machine.gridSize).detail = .varying := hkind.detail_eq
    rw [VariableArray.read, Value.indexAt_of_uniform hd, he, Option.elim_some, ← hget,
      Value.get_of_varying hfitted]
    exact Value.get_of_varying rfl _ p
  | varying =>
    have hread := Value.points_varying hd s.machine.mask
    have hshape := haccounts.isShaped_allocate a.type .varying s.machine.gridSize
    have hsize : _ = max s.machine.gridSize 1 := hshape.size_varying rfl
    obtain ⟨out, hgather, hget⟩ := VariableArray.exists_gather hvarying.storage_elements rfl
      hshape.storage (fun p hp => (hmask p hp).trans_le (by unfold Value.size; omega))
      (hread ▸ hindex)
    have hrun := gather_run a index s
    dsimp only at hrun
    rw [hgather] at hrun
    refine (ends_loadElement_of_varying ha hd).mpr (ends_of_ok hrun ⟨_, rfl, fun p hp => ?_⟩)
    have hkind := VariableArray.sameKind_gather (a := a) index s.machine.mask.ones
      ((s.machine.pools.allocate a.type .varying s.machine.gridSize).2.value
        (s.machine.pools.allocate a.type .varying s.machine.gridSize).1)
    rw [hgather] at hkind
    have hp' := hget p
    rw [if_pos hp, Value.get_of_varying hkind.detail] at hp'
    exact hp'

theorem ends_loadElement_of_not_bounds (ha : s.machine.locals[k]? = some (.array a))
    (hpoints : index.points s.machine.mask = points ++ p :: points')
    (hindex : a.InBounds index points)
    (hp : ¬(0 ≤ index.indexAt p ∧ index.indexAt p < a.length)) :
    Ends (loadElement (.declared k) index) s (fun _ _ => False)
      fun e _ => e = .arrayIndex a.name (index.indexAt p) a.length := by
  cases hd : index.detail with
  | uniform =>
    unfold loadElement
    rw [ends_bind, ends_readArray ha]
    dsimp only
    have hu : index.isVarying = false := Value.isVarying_eq_false_iff.mpr hd
    have hmem : p ∈ index.points s.machine.mask := by simp [hpoints]
    obtain rfl := Value.eq_zero_of_mem_points hd hmem
    rw [hu, if_neg Bool.false_ne_true, ends_bind, VariableArray.place?_of_not_bounds hp]
    rfl
  | varying =>
    have hrun := gather_run a index s
    rw [← Value.points_varying hd s.machine.mask, hpoints] at hrun
    dsimp only at hrun
    rw [VariableArray.gather_of_not_bounds hindex hp] at hrun
    rw [ends_loadElement_of_varying ha hd]
    unfold Ends
    rw [hrun]

end Elements

section Dispatch

variable [Environment ε] {i : Instruction} {Q : Option Nat → Session ε → Prop}

theorem ends_dispatch_popElement (hc : i.code = .popElement) :
    Ends (dispatch i) s Q E ↔ Ends (popElement i) s (fun _ t => Q none t) E := by
  unfold dispatch
  rw [hc]
  dsimp only [Opcode.rule?]
  rw [ends_bind]
  rfl

theorem ends_dispatch_pushElement (hc : i.code = .pushElement) :
    Ends (dispatch i) s Q E ↔ Ends (pushElement i) s (fun _ t => Q none t) E := by
  unfold dispatch
  rw [hc]
  dsimp only [Opcode.rule?]
  rw [ends_bind]
  rfl

variable {j : Instruction} {n b k p : Nat} {a a' : VariableArray} {index source again : Slot}
  {rest : List Slot} {x : Value} {mask : Mask} {points points' : List Nat}

/-- All indices that are read are in the array. -/
theorem dispatch_popElement_of_inBounds (hs : s.machine.Sized n b)
    (ha : s.machine.locals[k]? = some (.array a)) (hvarying : a.detail = .varying)
    (hstack : s.machine.stack = index :: source :: rest)
    (hstorage : source.type.storage = a.type.storage) (hcode : i.code = .popElement)
    (href : i.variableRef = .ok (.declared k))
    (hindex : a.InBounds (s.machine.pools.value index)
      ((s.machine.pools.value index).points s.machine.mask)) :
    ∃ a', dispatch i s = .ok none { s with
        machine := s.machine.stored k a' [source, index] rest } ∧
      a.Stores (s.machine.pools.value index) (s.machine.pools.value source) a.type.storage
        s.machine.mask.ones a' := by
  have hsource : (s.machine.pools.value source).IsShaped n :=
    hs.stack source (by simp [hstack])
  have hstore := ends_storeElement (i := i)
    (s := { s with machine := { s.machine with stack := rest } }) ha
    (hs.declared.varying ha hvarying) hs.le hs.mask hsource hstorage.symm hindex
  have hends : Ends (dispatch i) s (fun next t => ∃ a', next = none ∧
      t = { s with machine := s.machine.stored k a' [source, index] rest } ∧
      a.Stores (s.machine.pools.value index) (s.machine.pools.value source) a.type.storage
        s.machine.mask.ones a') fun _ _ => False := by
    rw [ends_dispatch_popElement hcode, ends_popElement href hstack]
    refine hstore.imp (fun _ t ht => ?_) fun _ _ hf => hf
    obtain ⟨a', hstores, rfl⟩ := ht
    exact ⟨a', rfl, rfl, hstores⟩
  obtain ⟨_, _, hrun, a', rfl, rfl, hstores⟩ := hends.exists_ok
  exact ⟨a', hrun, hstores⟩

theorem dispatch_popElement_of_not_bounds (ha : s.machine.locals[k]? = some (.array a))
    (hvarying : a.detail = .varying) (hstack : s.machine.stack = index :: source :: rest)
    (hstorage : source.type.storage = a.type.storage) (hcode : i.code = .popElement)
    (href : i.variableRef = .ok (.declared k)) (hx : s.machine.pools.value index = x)
    (hpoints : x.points s.machine.mask = points ++ p :: points') (hindex : a.InBounds x points)
    (hp : ¬(0 ≤ x.indexAt p ∧ x.indexAt p < a.length)) :
    ∃ t, dispatch i s = .error (.arrayIndex a.name (x.indexAt p) a.length) t := by
  subst hx
  have htype : a.type.storage = (s.machine.pools.value source).type.storage := hstorage.symm
  have hstore := ends_storeElement_of_not_bounds (i := i)
    (s := { s with machine := { s.machine with stack := rest } }) ha hvarying htype hpoints hindex hp
  have hends : Ends (dispatch i) s (fun _ _ => False)
      fun e _ => e = .arrayIndex a.name ((s.machine.pools.value index).indexAt p) a.length := by
    rw [ends_dispatch_popElement hcode, ends_popElement href hstack]
    exact hstore
  obtain ⟨_, t, hrun, rfl⟩ := hends.exists_error
  exact ⟨t, hrun⟩

/-- What an index that is the same again finds at the running points. -/
theorem dispatch_pushElement_of_inBounds {t : Session ε} (ht : t.Loads k a x mask again rest)
    (hvarying : a.detail = .varying) (hcode : j.code = .pushElement)
    (href : j.variableRef = .ok (.declared k)) (hindex : a.InBounds x (x.points mask)) :
    ∃ u slot, dispatch j t = .ok none u ∧ u.machine.locals = t.machine.locals ∧ u.host = t.host ∧
      u.machine.stack = slot :: rest ∧ slot.type = a.type ∧ slot.detail = .varying ∧
      ∀ p ∈ mask.ones, (u.machine.pools.value slot).get a.type.storage p =
        a.read x a.type.storage p := by
  obtain ⟨n, b, hsized⟩ := ht.sized
  obtain rfl := ht.mask
  have haccounts : t.machine.pools.Accounts (([again] : List Slot) + rest) := by
    have h : t.machine.pools.Accounts t.machine.stack := hsized.accounts
    rwa [ht.stack, ← List.singleton_append, ← Multiset.coe_add] at h
  have hload := ends_loadElement
    (s := { t with machine := { t.machine with stack := rest } }) ht.array
    (hsized.declared.varying ht.array hvarying) (hsized.gridSize.trans_le hsized.le)
    (fun p hp => (hsized.lt_of_mem_ones hp).trans_eq hsized.gridSize.symm) haccounts
    (by rw [ht.points_eq, ht.inBounds_iff fun _ hp => hp]; exact hindex)
  have hends : Ends (dispatch j) t (fun next u => ∃ d, next = none ∧
      u = { t with machine :=
        { t.machine with stack := rest }.put a.type .varying [again] d } ∧
      ∀ p ∈ t.machine.mask.ones, (Value.mk a.type .varying d).get a.type.storage p =
        a.read (t.machine.pools.value again) a.type.storage p) fun _ _ => False := by
    rw [ends_dispatch_pushElement hcode, ends_pushElement href ht.stack]
    refine hload.imp (fun _ u hu => ?_) fun _ _ hf => hf
    obtain ⟨d, rfl, hget⟩ := hu
    exact ⟨d, rfl, rfl, hget⟩
  obtain ⟨_, _, hrun, d, rfl, rfl, hget⟩ := hends.exists_ok
  refine ⟨_, _, hrun, rfl, rfl, rfl, rfl, rfl, fun p hp => ?_⟩
  have hnew := Machine.value_put_new (m := { t.machine with stack := rest }) haccounts a.type
    .varying d
  rw [← ht.read_eq _ hp, ← hget p hp]
  exact congrArg (fun v : Value => v.get a.type.storage p) hnew

theorem dispatch_pushElement_of_not_bounds {t : Session ε} (ht : t.Loads k a x mask again rest)
    (hcode : j.code = .pushElement) (href : j.variableRef = .ok (.declared k))
    (hpoints : x.points mask = points ++ p :: points') (hindex : a.InBounds x points)
    (hp : ¬(0 ≤ x.indexAt p ∧ x.indexAt p < a.length)) :
    ∃ u, dispatch j t = .error (.arrayIndex a.name (x.indexAt p) a.length) u := by
  have hsame : (t.machine.pools.value again).indexAt p = x.indexAt p :=
    ht.indexAt p (by simp [hpoints])
  have hbefore : a.InBounds (t.machine.pools.value again) points :=
    (ht.inBounds_iff fun q hq => by simp [hpoints, hq]).mpr hindex
  have hread : (t.machine.pools.value again).points t.machine.mask = points ++ p :: points' := by
    rw [ht.mask, ht.points_eq, hpoints]
  have hload := ends_loadElement_of_not_bounds
    (s := { t with machine := { t.machine with stack := rest } }) ht.array hread hbefore
    (by rwa [hsame])
  have hends : Ends (dispatch j) t (fun _ _ => False)
      fun e _ => e = .arrayIndex a.name (x.indexAt p) a.length := by
    rw [ends_dispatch_pushElement hcode, ends_pushElement href ht.stack, ← hsame]
    exact hload
  obtain ⟨_, u, hrun, rfl⟩ := hends.exists_error
  exact ⟨u, hrun⟩

/-- Where the index that is read is in the array, a store changes the elements of the running points
and nothing else of the array, and a load by the same index under the same mask finds what was stored
at each of them. Else both fail with the first index that is not in the array. An index at a point that
does not run is not read. -/
theorem store_then_load (hs : s.machine.Sized n b) (ha : s.machine.locals[k]? = some (.array a))
    (hvarying : a.detail = .varying) (hstack : s.machine.stack = index :: source :: rest)
    (hstorage : source.type.storage = a.type.storage)
    (hi : i.code = .popElement ∧ i.variableRef = .ok (.declared k))
    (hj : j.code = .pushElement ∧ j.variableRef = .ok (.declared k)) :
    let mask := s.machine.mask
    let x := s.machine.pools.value index
    let stored := s.machine.pools.value source
    (a.InBounds x (x.points mask) → ∃ a',
      dispatch i s = .ok none { s with machine := s.machine.stored k a' [source, index] rest } ∧
      (s.machine.stored k a' [source, index] rest).Sized n b ∧
      a.Stores x stored a.type.storage mask.ones a' ∧
      ∀ again rest' (t : Session ε), t.Loads k a' x mask again rest' →
        ∃ u slot, dispatch j t = .ok none u ∧ u.machine.locals = t.machine.locals ∧
          u.host = t.host ∧ u.machine.stack = slot :: rest' ∧ slot.type = a.type ∧
          slot.detail = .varying ∧ ∀ p ∈ mask.ones,
            (u.machine.pools.value slot).get a.type.storage p = stored.get a.type.storage p) ∧
    ∀ before p later, x.points mask = before ++ p :: later → a.InBounds x before →
      ¬(0 ≤ x.indexAt p ∧ x.indexAt p < a.length) →
      (∃ t, dispatch i s = .error (.arrayIndex a.name (x.indexAt p) a.length) t) ∧
      ∀ again rest' (t : Session ε), t.Loads k a x mask again rest' →
        ∃ u, dispatch j t = .error (.arrayIndex a.name (x.indexAt p) a.length) u := by
  intro mask x stored
  refine ⟨fun hindex => ?_,
    fun before p later hpoints hbefore hp => ⟨?_, fun again rest' t ht => ?_⟩⟩
  · obtain ⟨a', hrun, hstores⟩ :=
      dispatch_popElement_of_inBounds hs ha hvarying hstack hstorage hi.1 hi.2 hindex
    refine ⟨a', hrun, hs.stored hstack ha hstores.sameKind, hstores, fun again rest' t ht => ?_⟩
    have hkind := hstores.sameKind
    have hlength := (hs.declared.varying ha hvarying).length_eq hkind
    have hindex' : a'.InBounds x (x.points mask) := by
      rw [VariableArray.InBounds, hlength]
      exact hindex
    obtain ⟨u, slot, hload, hlocals, hhost, hstack', htype, hdetail, hread⟩ :=
      dispatch_pushElement_of_inBounds ht (hkind.detail.trans hvarying) hj.1 hj.2 hindex'
    rw [hkind.type] at htype hread
    refine ⟨u, slot, hload, hlocals, hhost, hstack', htype, hdetail, fun p hp => ?_⟩
    rw [hread p hp]
    exact hstores.read_eq hp (hindex.of_mem_ones hp)
  · exact dispatch_popElement_of_not_bounds ha hvarying hstack hstorage hi.1 hi.2 rfl hpoints
      hbefore hp
  · exact dispatch_pushElement_of_not_bounds ht hj.1 hj.2 hpoints hbefore hp

/-- Seven is stored by the coordinate `s` of two points, which selects an element for each. -/
theorem store_then_load_two_points :
    let code : Segment := ⟨#[.opcode "pushv" ⟨.pushVariable, [.variable]⟩, .variable (.graphics .s),
      .opcode "pushif" ⟨.pushFloat, [.float]⟩, .float 7,
      .opcode "pushv" ⟨.pushVariable, [.variable]⟩, .variable (.graphics .s)], []⟩
    let p : Program :=
      ⟨.surface, "1", ⟨0⟩, #[⟨"a", .float, .varying, false, false, some 2⟩], .empty, code⟩
    let host : Host Grid := ⟨.fresh 1 0, #[]⟩
    let s := (steps 3).after (started (Session.ready ⟨.fresh p .standard, host⟩) .code)
    let i : Instruction := ⟨"ipop", .popElement, 6, [.variable (.declared 0)]⟩
    let j : Instruction := ⟨"ipushv", .pushElement, 8, [.variable (.declared 0)]⟩
    s.machine.Sized 2 2 ∧ Ends (do let _ ← dispatch i; dispatch j) s
      (fun _ u => ∃ slot, u.machine.stack = [slot] ∧
        ∀ p ∈ [0, 1], (u.machine.pools.value slot).get .float p = 7)
      fun _ _ => False := by
  intro code p host s i j
  let a : VariableArray := (VariableArray.fresh "a" .float .varying 2).mapElements (·.sizeTo 2)
  let index : Slot := ⟨.float, .varying, 1⟩
  let source : Slot := ⟨.float, .uniform, 0⟩
  let again : Slot := ⟨.float, .varying, 0⟩
  have hstack : s.machine.stack = [index, source, again] := by decide +kernel
  have hmask : s.machine.mask = .full 2 := by decide +kernel
  have hlocals : s.machine.locals = #[.array a] := by decide +kernel
  have hindex : s.machine.pools.value index = ⟨.float, .varying, .float, #[0, 1]⟩ := by decide +kernel
  have hagain : s.machine.pools.value again = s.machine.pools.value index := by decide +kernel
  have hsource : s.machine.pools.value source = ⟨.float, .uniform, .float, #[7]⟩ := by decide +kernel
  have hs : s.machine.Sized 2 2 :=
    sized_after_steps (.fresh p .standard) host (Grid.wellKept_fresh 1 0) 3 (by decide +kernel)
  clear_value s
  have ha : s.machine.locals[0]? = some (.array a) := by
    rw [hlocals]
    rfl
  have hbounds : a.InBounds (s.machine.pools.value index)
      ((s.machine.pools.value index).points s.machine.mask) := by
    rw [hindex, hmask]
    unfold VariableArray.InBounds
    decide +kernel
  obtain ⟨a', hpop, hsized, -, hload⟩ :=
    (store_then_load (i := i) (j := j) hs ha rfl hstack rfl ⟨rfl, rfl⟩ ⟨rfl, rfl⟩).1 hbounds
  have hagain' : Session.Loads 0 a' (s.machine.pools.value index) s.machine.mask again []
      { s with machine := s.machine.stored 0 a' [source, index] [again] } :=
    { sized := ⟨2, 2, hsized⟩
      mask := rfl
      array := by
        show (s.machine.locals.setIfInBounds 0 (.array a'))[0]? = _
        rw [hlocals]
        rfl
      stack := rfl
      detail := rfl
      indexAt := fun p _ => by
        show ((s.machine.pools.releaseAll [source, index]).value again).indexAt p = _
        rw [Pools.value_releaseAll, hagain] }
  obtain ⟨u, slot, hpush, -, -, hstack', -, -, hread⟩ := hload again [] _ hagain'
  refine ⟨hs, ends_bind.mpr (ends_of_ok hpop (ends_of_ok hpush ⟨slot, hstack', fun p hp => ?_⟩))⟩
  have hones : (Mask.full 2).ones = [0, 1] := by decide +kernel
  have hmem : p ∈ s.machine.mask.ones := by rwa [hmask, hones]
  have hsame : (u.machine.pools.value slot).get .float p =
      (s.machine.pools.value source).get .float p := hread p hmem
  rw [hsame, hsource]
  rfl

end Dispatch

end Exec

end ShadingMachine
