import Mathlib.Order.Defs.Unbundled
import ShadingMachine.Machine.Access
import ShadingMachine.Proofs.Grid.SamePoint
import ShadingMachine.Scene.Grid

/-! What a store leaves alone. A write or an assignment under a mask touches the running points
only, so a varying value has at every other point what it had; a uniform value is one element for
all of them. How the variables of a session before and after are related is said variable by variable. -/
namespace ShadingMachine

namespace Data

variable {d source : Data} {i : Nat}

theorem getElem?_foldl_set_of_not_mem {α : Type} {places : List Nat} (h : i ∉ places) (f : Nat → α)
    (xs : Array α) : (places.foldl (fun xs k => xs.setIfInBounds k (f k)) xs)[i]? = xs[i]? := by
  induction places generalizing xs with
  | nil => rfl
  | cons k places ih =>
    rw [List.foldl_cons, ih (List.not_mem_of_not_mem_cons h),
      Array.getElem?_setIfInBounds_ne (List.ne_of_not_mem_cons h).symm]

theorem get_write_of_not_mem {places : List Nat} (h : i ∉ places) (s : Storage)
    (f : Nat → s.Elem) (s' : Storage) : (d.write s places f).get s' i = d.get s' i := by
  obtain ⟨s₀, xs⟩ := d
  by_cases hs : s₀ = s
  · subst hs
    by_cases hs' : s₀ = s'
    · subst hs'
      rw [write_mk, get_mk, get_mk, getElem?_foldl_set_of_not_mem h]
    · rw [get_of_storage_ne (by simpa using hs'), get_of_storage_ne hs']
  · simp [write, as?, hs]

/-- Setting an element is writing at one place. -/
theorem set_eq_write (d : Data) (s : Storage) (k : Nat) (x : s.Elem) :
    d.set s k x = d.write s [k] fun _ => x := by
  unfold set write
  cases d.as? s <;> rfl

theorem get_copyWhere_of_not_active {active : Nat → Bool} (h : active i = false) (s : Storage) :
    (d.copyWhere source active).get s i = d.get s i := by
  obtain ⟨s₀, xs⟩ := d
  unfold copyWhere
  split
  · by_cases hs : s₀ = s
    · subst hs
      rw [get_mk, get_mk, Array.getElem?_mapIdx]
      cases xs[i]? <;> simp [h]
    · rw [get_of_storage_ne hs, get_of_storage_ne hs]
  · rfl

end Data

namespace Value

/-- Values of the same kind and the same number of elements. -/
structure SameKind (v w : Value) : Prop where
  type : w.type = v.type
  detail : w.detail = v.detail
  storage : w.data.storage = v.data.storage
  size : w.size = v.size

/-- A value and one that it may become: of the same kind and, if the value is of a detail in
question, with the same element at a point. -/
structure KeepsAt (D : Detail → Prop) (i : Nat) (v w : Value) : Prop extends SameKind v w where
  get : D v.detail → ∀ s, w.get s i = v.get s i

variable {D : Detail → Prop} {i : Nat} {v w x : Value}

theorem SameKind.refl (v : Value) : SameKind v v := ⟨rfl, rfl, rfl, rfl⟩

theorem SameKind.trans (h : SameKind v w) (h' : SameKind w x) : SameKind v x :=
  ⟨h'.type.trans h.type, h'.detail.trans h.detail, h'.storage.trans h.storage,
    h'.size.trans h.size⟩

theorem KeepsAt.refl (D : Detail → Prop) (i : Nat) (v : Value) : KeepsAt D i v v :=
  ⟨.refl v, fun _ _ => rfl⟩

theorem KeepsAt.trans (h : KeepsAt D i v w) (h' : KeepsAt D i w x) : KeepsAt D i v x :=
  ⟨h.toSameKind.trans h'.toSameKind, fun hd s =>
    (h'.get (h.detail ▸ hd) s).trans (h.get hd s)⟩

theorem place_of_varying (h : v.detail = .varying) (i : Nat) : v.place i = i := by
  simp [place, isVarying, h, Detail.isVarying]

/-- Only elements at other places are written. -/
theorem keepsAt_write_data {places : List Nat} (h : D v.detail → v.place i ∉ places) (s : Storage)
    (f : Nat → s.Elem) : KeepsAt D i v { v with data := v.data.write s places f } where
  type := rfl
  detail := rfl
  storage := Data.storage_write ..
  size := Data.size_write ..
  get hd s' := Data.get_write_of_not_mem (h hd) s f s'

variable {mask : Mask}

theorem keepsAt_write (h : D v.detail → v.detail = .varying ∧ i ∉ mask.ones) (s : Storage)
    (f : Nat → s.Elem) : KeepsAt D i v (v.write s mask f) := by
  refine keepsAt_write_data (fun hd => ?_) s f
  obtain ⟨hv, hi⟩ := h hd
  simpa [place_of_varying hv, points, isVarying, hv, Detail.isVarying] using hi

/-- An element is taken over at another point. -/
theorem keepsAt_copyPoint {k : Nat} (h : D v.detail → v.detail = .varying ∧ i ≠ k)
    (source : Value) : KeepsAt D i v (v.copyPoint source k) := by
  unfold copyPoint Value.set
  rw [Data.set_eq_write]
  refine keepsAt_write_data (fun hd => ?_) _ _
  obtain ⟨hv, hk⟩ := h hd
  simpa [place_of_varying hv] using hk

theorem keepsAt_copyWhere {active : Nat → Bool} (h : D v.detail → active (v.place i) = false)
    (source : Data) : KeepsAt D i v { v with data := v.data.copyWhere source active } where
  type := rfl
  detail := rfl
  storage := Data.storage_copyWhere ..
  size := Data.size_copyWhere ..
  get hd s := Data.get_copyWhere_of_not_active (h hd) s

end Value

theorem Mask.get_eq_false_of_not_mem {m : Mask} {i : Nat} (h : i ∉ m.ones) : m.get i = false := by
  cases hget : m.get i with
  | false => rfl
  | true => exact absurd ((mem_ones (lt_size_of_get hget)).mpr hget) h

namespace Variable

/-- A variable and what it may become. -/
structure KeepsAt (D : Detail → Prop) (i : Nat) (v w : Variable) : Prop where
  value : v.toValue.KeepsAt D i w.toValue
  name : w.name = v.name
  param : w.param = v.param
  output : w.output = v.output

/-- The same variable, with the same element at a point. -/
abbrev UnchangedAt (i : Nat) (v w : Variable) : Prop := KeepsAt (fun _ => True) i v w

/-- Variables that differ in their elements only. -/
structure SameKind (v w : Variable) : Prop where
  value : v.toValue.SameKind w.toValue
  name : w.name = v.name
  param : w.param = v.param
  output : w.output = v.output

theorem KeepsAt.sameKind {D : Detail → Prop} {i : Nat} {v w : Variable} (h : v.KeepsAt D i w) :
    v.SameKind w := ⟨h.value.toSameKind, h.name, h.param, h.output⟩

/-- A variable changed in its value only. -/
theorem keepsAt_mapValue {D : Detail → Prop} {i : Nat} {v : Variable} {f : Value → Value}
    (h : v.toValue.KeepsAt D i (f v.toValue)) : v.KeepsAt D i (v.mapValue f) := ⟨h, rfl, rfl, rfl⟩

instance : IsPreorder Variable SameKind where
  refl v := ⟨.refl v.toValue, rfl, rfl, rfl⟩
  trans _ _ _ h h' := ⟨h.value.trans h'.value, h'.name.trans h.name, h'.param.trans h.param,
    h'.output.trans h.output⟩

instance (D : Detail → Prop) (i : Nat) : IsPreorder Variable (KeepsAt D i) where
  refl v := ⟨.refl D i v.toValue, rfl, rfl, rfl⟩
  trans _ _ _ h h' := ⟨h.value.trans h'.value, h'.name.trans h.name, h'.param.trans h.param,
    h'.output.trans h.output⟩

variable {D : Detail → Prop} {i : Nat} {v w : Variable} {source : Value} {mask : Mask}

/-- An assignment changes a varying variable at the points of the mask only. -/
theorem keepsAt_of_assign (hassign : v.assign source mask = .ok w)
    (h : D v.detail → v.detail = .varying ∧ i ∉ mask.ones) : v.KeepsAt D i w := by
  unfold assign at hassign
  split at hassign
  · cases hassign
  split at hassign
  · cases hassign
  cases hassign
  refine keepsAt_mapValue (Value.keepsAt_copyWhere (fun hd => ?_) source.data)
  obtain ⟨hv, hi⟩ := h hd
  simp [Value.isVarying, hv, Detail.isVarying, Value.place_of_varying hv,
    Mask.get_eq_false_of_not_mem hi]

theorem sameKind_of_assign (h : v.assign source mask = .ok w) : v.SameKind w :=
  (keepsAt_of_assign (D := fun _ => False) (i := 0) h False.elim).sameKind

end Variable

/-- Arrays of one declaration, with elements that are related each to each. -/
structure VariableArray.Related (R : Variable → Variable → Prop) (a b : VariableArray) : Prop where
  name : b.name = a.name
  type : b.type = a.type
  detail : b.detail = a.detail
  param : b.param = a.param
  output : b.output = a.output
  elements (k : Nat) : Option.Rel R a.elements[k]? b.elements[k]?

inductive Local.Related (R : Variable → Variable → Prop) : Local → Local → Prop
  | scalar {v w : Variable} : R v w → Related R (.scalar v) (.scalar w)
  | array {a b : VariableArray} : a.Related R b → Related R (.array a) (.array b)

def Locals.Related (R : Variable → Variable → Prop) (ls ls' : Locals) : Prop :=
  ∀ k : Nat, Option.Rel (Local.Related R) ls[k]? ls'[k]?

def GraphicsState.Related (R : Variable → Variable → Prop) (g g' : GraphicsState) : Prop :=
  ∀ x, R (g.get x) (g'.get x)

/-- The variables of two sessions are related each to each. -/
structure Session.Related (R : Variable → Variable → Prop) (s t : Session Grid) : Prop where
  locals : Locals.Related R s.machine.locals t.machine.locals
  graphics : GraphicsState.Related R s.host.env.graphics t.host.env.graphics

theorem optionRel_imp {α β : Type} {R R' : α → β → Prop} (h : ∀ {a b}, R a b → R' a b)
    {x : Option α} {y : Option β} (hxy : Option.Rel R x y) : Option.Rel R' x y := by
  cases hxy with
  | none => exact .none
  | some hab => exact .some (h hab)

section Imp

variable {R R' : Variable → Variable → Prop} (h : ∀ {v w}, R v w → R' v w)
include h

theorem VariableArray.Related.imp {a b : VariableArray} (hab : a.Related R b) : a.Related R' b :=
  ⟨hab.name, hab.type, hab.detail, hab.param, hab.output, fun k => optionRel_imp h (hab.elements k)⟩

theorem Local.Related.imp {l l' : Local} (hl : l.Related R l') : l.Related R' l' := by
  cases hl with
  | scalar hv => exact .scalar (h hv)
  | array ha => exact .array (ha.imp h)

theorem Locals.Related.imp {ls ls' : Locals} (hls : ls.Related R ls') : ls.Related R' ls' :=
  fun k => optionRel_imp (Local.Related.imp h) (hls k)

theorem Session.Related.imp {s t : Session Grid} (hst : s.Related R t) : s.Related R' t :=
  ⟨hst.locals.imp h, fun x => h (hst.graphics x)⟩

end Imp

/-! A relation of variables that is reflexive and transitive is so for all that holds variables. -/

instance isPreorder_optionRel {α : Type} {R : α → α → Prop} [IsPreorder α R] : IsPreorder (Option α) (Option.Rel R) where
  refl x := by
    cases x with
    | none => exact .none
    | some a => exact .some (refl_of R a)
  trans x y z h h' := by
    cases h with
    | none => exact h'
    | some hab =>
      cases h' with
      | some hbc => exact .some (trans_of R hab hbc)

section Related

variable {R : Variable → Variable → Prop} [IsPreorder Variable R]

instance : IsPreorder VariableArray (VariableArray.Related R) where
  refl _ := ⟨rfl, rfl, rfl, rfl, rfl, fun _ => refl_of (Option.Rel R) _⟩
  trans _ _ _ h h' := ⟨h'.name.trans h.name, h'.type.trans h.type, h'.detail.trans h.detail,
    h'.param.trans h.param, h'.output.trans h.output,
    fun k => trans_of (Option.Rel R) (h.elements k) (h'.elements k)⟩

instance : IsPreorder Local (Local.Related R) where
  refl l := by
    cases l with
    | scalar v => exact .scalar (refl_of R v)
    | array a => exact .array (refl_of (VariableArray.Related R) a)
  trans l l' l'' h h' := by
    cases h with
    | scalar hv =>
      cases h' with
      | scalar hw => exact .scalar (trans_of R hv hw)
    | array ha =>
      cases h' with
      | array hb => exact .array (trans_of (VariableArray.Related R) ha hb)

instance : IsPreorder Locals (Locals.Related R) where
  refl _ _ := refl_of (Option.Rel (Local.Related R)) _
  trans _ _ _ h h' k := trans_of (Option.Rel (Local.Related R)) (h k) (h' k)

instance : IsPreorder GraphicsState (GraphicsState.Related R) where
  refl _ _ := refl_of R _
  trans _ _ _ h h' x := trans_of R (h x) (h' x)

instance : IsPreorder (Session Grid) (Session.Related R) where
  refl _ := ⟨refl_of (Locals.Related R) _, refl_of (GraphicsState.Related R) _⟩
  trans _ _ _ h h' := ⟨trans_of (Locals.Related R) h.locals h'.locals,
    trans_of (GraphicsState.Related R) h.graphics h'.graphics⟩

/-- One element of an array becomes another. -/
theorem VariableArray.related_set {a : VariableArray} {j : Nat} {v w : Variable}
    (hj : a.elements[j]? = some v) (hvw : R v w) :
    a.Related R { a with elements := a.elements.setIfInBounds j w } := by
  refine ⟨rfl, rfl, rfl, rfl, rfl, fun k => ?_⟩
  show Option.Rel R a.elements[k]? (a.elements.setIfInBounds j w)[k]?
  by_cases hk : j = k
  · subst hk
    obtain ⟨hlt, -⟩ := Array.getElem?_eq_some_iff.mp hj
    rw [hj, Array.getElem?_setIfInBounds_self_of_lt hlt]
    exact .some hvw
  · rw [Array.getElem?_setIfInBounds_ne hk]
    exact refl_of (Option.Rel R) _

theorem Locals.related_set {ls : Locals} {k : Nat} {l l' : Local} (hk : ls[k]? = some l)
    (hl : l.Related R l') : Related R ls (ls.setIfInBounds k l') := by
  intro j
  by_cases hj : k = j
  · subst hj
    obtain ⟨hlt, -⟩ := Array.getElem?_eq_some_iff.mp hk
    rw [hk, Array.getElem?_setIfInBounds_self_of_lt hlt]
    exact .some hl
  · rw [Array.getElem?_setIfInBounds_ne hj]
    exact refl_of (Option.Rel (Local.Related R)) _

theorem GraphicsState.related_set {g : GraphicsState} {x : GraphicsVariable} {w : Variable}
    (hw : R (g.get x) w) : Related R g (g.set x w) := by
  intro y
  rw [get_set]
  split
  · rename_i hx
    exact hx ▸ hw
  · exact refl_of R _

end Related

/-- By induction on the points that are written: none of them is the one in question. -/
theorem VariableArray.keepsAt_scatter {D : Detail → Prop} {i : Nat} {points : List Nat}
    (h : ∀ d, D d → d = .varying ∧ i ∉ points) (a : VariableArray) (index source : Value) :
    a.Related (Variable.KeepsAt D i) (a.scatter index source points).1 := by
  induction points generalizing a with
  | nil => exact refl_of (Related (Variable.KeepsAt D i)) a
  | cons k points ih =>
    have hpoint (d : Detail) (hd : D d) : d = .varying ∧ i ≠ k :=
      ⟨(h d hd).1, List.ne_of_not_mem_cons (h d hd).2⟩
    have hpoints (d : Detail) (hd : D d) : d = .varying ∧ i ∉ points :=
      ⟨(h d hd).1, List.not_mem_of_not_mem_cons (h d hd).2⟩
    unfold scatter
    split
    · rename_i j _
      refine trans_of (Related (Variable.KeepsAt D i)) ?_ (ih hpoints _)
      refine ⟨rfl, rfl, rfl, rfl, rfl, fun j' => ?_⟩
      rw [Array.getElem?_modify]
      split
      · cases a.elements[j']? with
        | none => exact .none
        | some v =>
          exact .some (Variable.keepsAt_mapValue (Value.keepsAt_copyPoint (hpoint v.detail) source))
      · exact refl_of (Option.Rel (Variable.KeepsAt D i)) _
    · exact refl_of (Related (Variable.KeepsAt D i)) a

theorem VariableArray.sameKind_scatter (points : List Nat) (a : VariableArray)
    (index source : Value) : a.Related Variable.SameKind (a.scatter index source points).1 :=
  (a.keepsAt_scatter (D := fun _ => False) (i := 0) (fun _ => False.elim) index source).imp
    Variable.KeepsAt.sameKind

end ShadingMachine
