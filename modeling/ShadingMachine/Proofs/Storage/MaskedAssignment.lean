import ShadingMachine.Proofs.Storage.Locals

/-! Assignment under a mask. A variable refuses a value of another storage, and one that varies if it
does not vary itself; else it takes over elements and keeps its kind. A varying variable does so where
the mask is set, so that assignments under masks without a common point can change places; a uniform
one takes over the one element whatever the mask, so there the later assignment wins. -/
namespace ShadingMachine

namespace Data

variable {d source source' : Data} {active active' : Nat → Bool} {i : Nat}

/-- The element for a place, if there is one: a single one is for all of them. -/
def taken? (d : Data) (s : Storage) (i : Nat) : Option s.Elem :=
  (d.as? s).bind fun xs => if xs.size = 1 then xs[0]? else xs[i]?

theorem copyWhere_mk (s : Storage) (xs : Array s.Elem) (source : Data) (active : Nat → Bool) :
    (Data.mk s xs).copyWhere source active =
      ⟨s, xs.mapIdx fun i old => if active i then (source.taken? s i).getD old else old⟩ := by
  unfold copyWhere taken?
  cases source.as? s with
  | some ys => rfl
  | none => exact congrArg (Data.mk s) (Array.ext (by simp) fun i hi hi' => by simp)

theorem copyWhere_self (d source : Data) (active : Nat → Bool) :
    (d.copyWhere source active).copyWhere source active = d.copyWhere source active := by
  obtain ⟨s, xs⟩ := d
  rw [copyWhere_mk, copyWhere_mk, Array.mapIdx_mapIdx]
  congr 2
  funext i old
  by_cases hi : active i = true
  · simp only [Function.comp_apply, if_pos hi]
    cases source.taken? s i <;> rfl
  · simp only [Function.comp_apply, if_neg hi]

/-- At each place at most one of the two is active. -/
theorem copyWhere_comm (d source source' : Data)
    (h : ∀ i, active i = true → active' i = false) :
    (d.copyWhere source active).copyWhere source' active' =
      (d.copyWhere source' active').copyWhere source active := by
  obtain ⟨s, xs⟩ := d
  simp only [copyWhere_mk, Array.mapIdx_mapIdx]
  congr 2
  funext i old
  by_cases hi : active i = true
  · simp only [Function.comp_apply, hi, h i hi, if_true, Bool.false_eq_true, if_false]
  · simp only [Function.comp_apply, hi, if_false, Bool.false_eq_true]

theorem get_copyWhere_eq (h : source.storage = d.storage) (active : Nat → Bool) (hi : i < d.size) :
    (d.copyWhere source active).get d.storage i =
      if active i then
        if source.size = 1 then source.get d.storage 0
        else if i < source.size then source.get d.storage i
        else d.get d.storage i
      else d.get d.storage i := by
  by_cases hsource : source.size = 1 ∨ i < source.size
  · rw [get_copyWhere h hi hsource, spread]
    by_cases hone : source.size = 1
    · simp only [hone, if_true]
    · simp only [hone, hsource.resolve_left hone, if_true, if_false]
  · obtain ⟨hone, hlt⟩ := not_or.mp hsource
    obtain ⟨s, xs⟩ := d
    obtain ⟨s', ys⟩ := source
    obtain rfl : s' = s := h
    have hnone : (Data.mk s' ys).taken? s' i = none := by
      have hys : ys.size ≤ i := Nat.le_of_not_lt hlt
      have hone' : ys.size ≠ 1 := hone
      simp only [taken?, as?_self, Option.bind_some, hone', if_false, Array.getElem?_eq_none hys]
    have hxs : xs[i]? = some xs[i] := Array.getElem?_eq_getElem hi
    simp only [copyWhere_mk, get_mk, Array.getElem?_mapIdx, hxs, hnone, Option.map_some,
      Option.getD_none, Option.getD_some, if_neg hone, if_neg hlt, ite_self]

/-- A single element that is taken over everywhere. -/
theorem copyWhere_of_size_one (h : source.storage = d.storage) (hd : d.size = 1)
    (hsource : source.size = 1) : (d.copyWhere source fun _ => true) = source := by
  have hstorage : (d.copyWhere source fun _ => true).storage = d.storage := storage_copyWhere ..
  refine ext_of_size_one (hstorage.trans h.symm) ((size_copyWhere ..).trans hd) hsource ?_
  rw [hstorage, get_copyWhere_eq h _ (by omega), if_pos rfl, if_pos hsource]

end Data

namespace Variable

variable {n n' : Nat} {v w : Variable} {source source' : Value} {mask mask' : Mask}

/-- A value of the variable's storage, which varies only if the variable does. -/
def Accepts (v : Variable) (source : Value) : Prop :=
  v.type.storage = source.type.storage ∧ (source.detail = .varying → v.detail = .varying)

/-- The variable when an assignment has been made or refused. -/
def after (v : Variable) (source : Value) (mask : Mask) : Variable :=
  (v.assign source mask).toOption.getD v

/-- What is taken over: the one element of a uniform variable, and those of a varying one at the
points of the mask, as far as the source has elements. -/
structure Takes (source : Value) (mask : Mask) (v w : Variable) : Prop where
  sameKind : v.SameKind w
  uniform : v.detail = .uniform → w.data = source.data
  varying : v.detail = .varying → ∀ i < v.size, w.data.get v.type.storage i =
    if mask.get i then
      if source.size = 1 then source.data.get v.type.storage 0
      else if i < source.size then source.data.get v.type.storage i
      else v.data.get v.type.storage i
    else v.data.get v.type.storage i

theorem assign_eq_error_iff {e : AssignError} : v.assign source mask = .error e ↔
    (v.type.storage ≠ source.type.storage ∧ e = .typeMismatch v.name v.type source.type) ∨
    (v.type.storage = source.type.storage ∧ v.detail = .uniform ∧ source.detail = .varying ∧
      e = .detailMismatch v.name) := by
  unfold assign Value.isVarying
  by_cases hstorage : v.type.storage = source.type.storage
  · rw [if_neg (not_not.mpr hstorage)]
    cases hv : v.detail <;> cases hs : source.detail <;>
      simp [Detail.isVarying, hstorage, eq_comm]
  · simp [hstorage, eq_comm]

theorem assign_of_accepts (h : v.Accepts source) (mask : Mask) :
    v.assign source mask = .ok (v.mapValue fun old =>
      { old with data := old.data.copyWhere source.data fun i => !v.isVarying || mask.get i }) := by
  have hdetail : (!v.isVarying && source.isVarying) = false := by
    cases hs : source.detail with
    | uniform => rw [Value.isVarying_eq_false_iff.mpr hs, Bool.and_false]
    | varying => simp [Value.isVarying, h.2 hs, Detail.isVarying]
  unfold assign
  rw [if_neg (not_not.mpr h.1), hdetail, if_neg Bool.false_ne_true]

theorem after_of_ok (h : v.assign source mask = .ok w) : v.after source mask = w := by
  rw [after, h]
  rfl

theorem after_of_error {e : AssignError} (h : v.assign source mask = .error e) :
    v.after source mask = v := by
  rw [after, h]
  rfl

theorem assign_of_accepts_eq_after (h : v.Accepts source) (mask : Mask) :
    v.assign source mask = .ok (v.after source mask) := by
  have hok := assign_of_accepts h mask
  rw [after_of_ok hok, hok]

theorem after_of_not_accepts (h : ¬v.Accepts source) (mask : Mask) : v.after source mask = v := by
  cases hassign : v.assign source mask with
  | error e => exact after_of_error hassign
  | ok w =>
    refine absurd ?_ h
    have herror (e : AssignError) : v.assign source mask ≠ .error e := by simp [hassign]
    simp only [ne_eq, assign_eq_error_iff, not_or, not_and] at herror
    have hstorage : v.type.storage = source.type.storage := by
      by_contra hne
      exact (herror _).1 hne rfl
    refine ⟨hstorage, fun hs => ?_⟩
    cases hv : v.detail with
    | varying => rfl
    | uniform => exact absurd rfl ((herror _).2 hstorage hv hs)

theorem sameKind_after (v : Variable) (source : Value) (mask : Mask) :
    v.SameKind (v.after source mask) := by
  cases h : v.assign source mask with
  | error e =>
    rw [after_of_error h]
    exact refl_of SameKind v
  | ok w =>
    rw [after_of_ok h]
    exact sameKind_of_assign h

/-- What is refused depends on the kind of the variable only. -/
theorem SameKind.accepts_iff (h : v.SameKind w) : w.Accepts source ↔ v.Accepts source := by
  rw [Accepts, Accepts, h.value.type, h.value.detail]

theorem SameKind.assign_eq_error_iff (h : v.SameKind w) (mask mask' : Mask) (e : AssignError) :
    w.assign source mask = .error e ↔ v.assign source mask' = .error e := by
  rw [Variable.assign_eq_error_iff, Variable.assign_eq_error_iff, h.value.type, h.value.detail,
    h.name]

theorem after_of_accepts (h : v.Accepts source) (mask : Mask) :
    v.after source mask = v.mapValue fun old =>
      { old with data := old.data.copyWhere source.data fun i => !v.isVarying || mask.get i } :=
  after_of_ok (assign_of_accepts h mask)

theorem active_of_varying (hd : v.detail = .varying) (mask : Mask) :
    (fun i => !v.isVarying || mask.get i) = mask.get := by
  funext i
  simp [Value.isVarying, hd, Detail.isVarying]

/-- The mask is not looked at. -/
theorem after_of_uniform (hv : v.toValue.IsShaped n) (hs : source.IsShaped n')
    (h : v.Accepts source) (hd : v.detail = .uniform) (mask : Mask) :
    v.after source mask = v.mapValue fun old => { old with data := source.data } := by
  have hsource : source.detail = .uniform := by
    cases hs' : source.detail with
    | uniform => rfl
    | varying => cases hd.symm.trans (h.2 hs')
  have hstorage : source.data.storage = v.data.storage := by rw [hs.storage, hv.storage, h.1]
  have hcopy := Data.copyWhere_of_size_one hstorage (hv.size_uniform hd) (hs.size_uniform hsource)
  rw [after_of_accepts h]
  simp only [mapValue, Value.isVarying_eq_false_iff.mpr hd, Bool.not_false, Bool.true_or, hcopy]

theorem takes_after (hv : v.toValue.IsShaped n) (hs : source.IsShaped n') (h : v.Accepts source)
    (mask : Mask) : v.Takes source mask (v.after source mask) where
  sameKind := v.sameKind_after source mask
  uniform hd := by
    rw [after_of_uniform hv hs h hd]
    rfl
  varying hd i hi := by
    have hstorage : source.data.storage = v.data.storage := by rw [hs.storage, hv.storage, h.1]
    rw [after_of_accepts h, active_of_varying hd, ← hv.storage]
    exact Data.get_copyWhere_eq hstorage mask.get hi

theorem after_assign_self (v : Variable) (source : Value) (mask : Mask) :
    (v.after source mask).assign source mask = v.assign source mask := by
  by_cases h : v.Accepts source
  · have hkind := v.sameKind_after source mask
    have hvarying : (v.after source mask).isVarying = v.isVarying :=
      congrArg Detail.isVarying hkind.value.detail
    rw [assign_of_accepts (hkind.accepts_iff.mpr h), hvarying, after_of_accepts h,
      assign_of_accepts h]
    simp only [mapValue, Data.copyWhere_self]
  · rw [after_of_not_accepts h]

/-- A varying variable keeps what the masks have at different points. -/
theorem after_comm_of_varying (hd : v.detail = .varying)
    (hmask : ∀ i, mask.get i = true → mask'.get i = false) (source source' : Value) :
    (v.after source mask).after source' mask' = (v.after source' mask').after source mask := by
  have hkind := v.sameKind_after source mask
  have hkind' := v.sameKind_after source' mask'
  by_cases h : v.Accepts source
  · by_cases h' : v.Accepts source'
    · rw [after_of_accepts (hkind.accepts_iff.mpr h'), after_of_accepts (hkind'.accepts_iff.mpr h),
        active_of_varying (hkind.value.detail.trans hd),
        active_of_varying (hkind'.value.detail.trans hd), after_of_accepts h, after_of_accepts h',
        active_of_varying hd, active_of_varying hd]
      simp only [mapValue, Data.copyWhere_comm _ _ _ hmask]
    · rw [after_of_not_accepts h', after_of_not_accepts (mt hkind.accepts_iff.mp h')]
  · rw [after_of_not_accepts h, after_of_not_accepts (mt hkind'.accepts_iff.mp h)]

/-- Two assignments can change places, except where a uniform variable takes over two elements. -/
theorem after_comm_iff {n'' : Nat} (hv : v.toValue.IsShaped n) (hs : source.IsShaped n')
    (hs' : source'.IsShaped n'') (hmask : ∀ i, mask.get i = true → mask'.get i = false) :
    (v.after source mask).after source' mask' = (v.after source' mask').after source mask ↔
      (v.detail = .uniform → v.Accepts source → v.Accepts source' → source.data = source'.data) := by
  have hkind := v.sameKind_after source mask
  have hkind' := v.sameKind_after source' mask'
  cases hd : v.detail with
  | varying => exact iff_of_true (after_comm_of_varying hd hmask source source') nofun
  | uniform =>
    by_cases h : v.Accepts source
    · by_cases h' : v.Accepts source'
      · rw [after_of_uniform (hv.sameKind hkind.value) hs' (hkind.accepts_iff.mpr h')
            (hkind.value.detail.trans hd),
          after_of_uniform (hv.sameKind hkind'.value) hs (hkind'.accepts_iff.mpr h)
            (hkind'.value.detail.trans hd),
          after_of_uniform hv hs h hd, after_of_uniform hv hs' h' hd]
        constructor
        · intro heq _ _ _
          exact (congrArg (fun w : Variable => w.data) heq).symm
        · intro hdata
          simp only [mapValue, hdata rfl h h']
      · refine iff_of_true ?_ fun _ _ haccepts => absurd haccepts h'
        rw [after_of_not_accepts h', after_of_not_accepts (mt hkind.accepts_iff.mp h')]
    · refine iff_of_true ?_ fun _ haccepts => absurd haccepts h
      rw [after_of_not_accepts h, after_of_not_accepts (mt hkind'.accepts_iff.mp h)]

/-- An assignment is refused just when the storages differ or a uniform variable is given a value that
varies, and then leaves the variable as it is; else the variable keeps its kind and takes over what the
mask and the source say. It makes no difference to assign twice. Of two assignments under masks
without a common point each is accepted or refused whatever the other does, and they can change places
unless a uniform variable accepts both of two different values. -/
theorem assign_contract {n n' : Nat} {v : Variable} {source : Value} (hv : v.toValue.IsShaped n)
    (hs : source.IsShaped n') (mask : Mask) :
    (∀ e, v.assign source mask = .error e ↔
      (v.type.storage ≠ source.type.storage ∧ e = .typeMismatch v.name v.type source.type) ∨
      (v.type.storage = source.type.storage ∧ v.detail = .uniform ∧ source.detail = .varying ∧
        e = .detailMismatch v.name)) ∧
    (∀ e, v.assign source mask = .error e → v.after source mask = v) ∧
    (v.Accepts source → v.assign source mask = .ok (v.after source mask) ∧
      v.Takes source mask (v.after source mask)) ∧
    (v.after source mask).assign source mask = v.assign source mask ∧
    ∀ {n'' : Nat} {source' : Value} {mask' : Mask}, source'.IsShaped n'' →
      (∀ i, mask.get i = true → mask'.get i = false) →
      (∀ e, (v.after source mask).assign source' mask' = .error e ↔
        v.assign source' mask' = .error e) ∧
      (∀ e, (v.after source' mask').assign source mask = .error e ↔
        v.assign source mask = .error e) ∧
      ((v.after source mask).after source' mask' = (v.after source' mask').after source mask ↔
        (v.detail = .uniform → v.Accepts source → v.Accepts source' →
          source.data = source'.data)) := by
  refine ⟨fun e => assign_eq_error_iff, fun e => after_of_error, fun h => ?_,
    after_assign_self v source mask, fun hs' hmask => ⟨?_, ?_, after_comm_iff hv hs hs' hmask⟩⟩
  · exact ⟨assign_of_accepts_eq_after h mask, takes_after hv hs h mask⟩
  · exact (v.sameKind_after source mask).assign_eq_error_iff _ _
  · exact (v.sameKind_after _ _).assign_eq_error_iff _ _

/-- A single element at the first of three points and a source of two elements at the others, under
masks of other sizes than the variable. -/
theorem assign_contract_three_points :
    let varying (name : String) (xs : Array Float32) : Variable :=
      ⟨⟨.float, .varying, ⟨.float, xs⟩⟩, name, false, false⟩
    let v := varying "x" #[1, 2, 3]
    let one := varying "y" #[5]
    let two := varying "z" #[7, 8]
    let first := Mask.full 1
    let others := ((Mask.empty 70).insert 1).insert 2
    v.toValue.IsShaped 3 ∧ one.toValue.IsShaped 1 ∧ two.toValue.IsShaped 2 ∧
      (∀ i, first.get i = true → others.get i = false) ∧
      ((v.after one.toValue first).after two.toValue others).data = ⟨.float, #[5, 8, 3]⟩ ∧
      (v.after one.toValue first).after two.toValue others =
        (v.after two.toValue others).after one.toValue first := by
  intro varying v one two first others
  have hv : v.toValue.IsShaped 3 := ⟨rfl, rfl⟩
  have hone : one.toValue.IsShaped 1 := ⟨rfl, rfl⟩
  have htwo : two.toValue.IsShaped 2 := ⟨rfl, rfl⟩
  have hmask : ∀ i, first.get i = true → others.get i = false := by
    intro i hi
    obtain rfl : i = 0 := Nat.lt_one_iff.mp (Mask.lt_size_of_get hi)
    decide
  exact ⟨hv, hone, htwo, hmask, by decide +kernel,
    ((assign_contract hv hone first).2.2.2.2 htwo hmask).2.2.mpr nofun⟩

/-- A uniform variable does not look at the masks, so the later of two assignments decides. -/
theorem not_after_comm_of_uniform :
    let uniform (name : String) (x : Float32) : Variable :=
      ⟨⟨.float, .uniform, ⟨.float, #[x]⟩⟩, name, false, false⟩
    let v := uniform "x" 0
    let one := uniform "y" 1
    let two := uniform "z" 2
    let first := (Mask.empty 2).insert 0
    let second := (Mask.empty 2).insert 1
    (v.toValue.IsShaped 2 ∧ one.toValue.IsShaped 2 ∧ two.toValue.IsShaped 2) ∧
      (∀ i, first.get i = true → second.get i = false) ∧
      (v.after one.toValue first).after two.toValue second ≠
        (v.after two.toValue second).after one.toValue first := by
  intro uniform v one two first second
  refine ⟨⟨⟨rfl, rfl⟩, ⟨rfl, rfl⟩, ⟨rfl, rfl⟩⟩, fun i hi => ?_, by decide +kernel⟩
  obtain rfl : 0 = i := by simpa [first, Mask.get_insert] using hi
  decide

end Variable

end ShadingMachine
