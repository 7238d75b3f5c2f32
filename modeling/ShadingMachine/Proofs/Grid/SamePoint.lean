import Mathlib.Data.List.Forall2
import ShadingMachine.Machine.Rule
import ShadingMachine.Proofs.Execution.Together
import ShadingMachine.Proofs.Mask.Points
import ShadingMachine.Value.Variable

/-! Values of two grids compared at one point. A uniform value is the same on both. A varying value
has the same element at the point, if the point is live: what a temporary value holds at a point
that does not run is left over from before and may be anything. What is computed point by point
from such values is again the same, and so is what is assigned under the mask. -/
namespace ShadingMachine

namespace Data

theorem get_mk (s : Storage) (xs : Array s.Elem) (i : Nat) :
    (Data.mk s xs).get s i = xs[i]?.getD s.initial := by simp [get]

theorem get_of_storage_ne {d : Data} {s : Storage} (h : d.storage ≠ s) (i : Nat) :
    d.get s i = s.initial := by simp [get, as?, h]

theorem size_foldl_set {α : Type} (places : List Nat) (f : Nat → α) (xs : Array α) :
    (places.foldl (fun xs k => xs.setIfInBounds k (f k)) xs).size = xs.size := by
  induction places generalizing xs with
  | nil => rfl
  | cons k places ih => simpa using ih (xs.setIfInBounds k (f k))

theorem getElem?_foldl_set {α : Type} (places : List Nat) (f : Nat → α) (xs : Array α) {i : Nat}
    (hi : i < xs.size) :
    (places.foldl (fun xs k => xs.setIfInBounds k (f k)) xs)[i]? =
      if i ∈ places then some (f i) else xs[i]? := by
  induction places generalizing xs with
  | nil => simp
  | cons k places ih =>
    rw [List.foldl_cons, ih _ (by simpa using hi)]
    by_cases hk : k = i
    · subst hk
      simp [hi]
    · simp [hk, Ne.symm hk]

theorem write_mk (s : Storage) (xs : Array s.Elem) (places : List Nat) (f : Nat → s.Elem) :
    (Data.mk s xs).write s places f =
      ⟨s, places.foldl (fun xs k => xs.setIfInBounds k (f k)) xs⟩ := by simp only [write, as?_self]

@[simp] theorem storage_write (d : Data) (s : Storage) (places : List Nat) (f : Nat → s.Elem) :
    (d.write s places f).storage = d.storage := by
  unfold write as?
  by_cases h : d.storage = s
  · subst h; simp
  · simp [h]

@[simp] theorem size_write (d : Data) (s : Storage) (places : List Nat) (f : Nat → s.Elem) :
    (d.write s places f).size = d.size := by
  obtain ⟨s', xs⟩ := d
  by_cases h : s' = s
  · subst h
    rw [write_mk]
    exact size_foldl_set places f xs
  · simp [write, as?, h]

theorem get_write {d : Data} {s : Storage} (hs : d.storage = s) (places : List Nat)
    (f : Nat → s.Elem) {i : Nat} (hi : i < d.size) :
    (d.write s places f).get s i = if i ∈ places then f i else d.get s i := by
  obtain ⟨s', xs⟩ := d
  subst hs
  rw [write_mk, get_mk, get_mk, getElem?_foldl_set places f xs hi]
  split <;> rfl

@[simp] theorem storage_copyWhere (d source : Data) (active : Nat → Bool) :
    (d.copyWhere source active).storage = d.storage := by
  unfold copyWhere
  split <;> rfl

/-- The source's element at a place, a single one standing for all. -/
def spread (d : Data) (s : Storage) (i : Nat) : s.Elem := d.get s (if d.size = 1 then 0 else i)

theorem get_copyWhere {d source : Data} (h : source.storage = d.storage) {active : Nat → Bool}
    {i : Nat} (hi : i < d.size) (hsource : source.size = 1 ∨ i < source.size) :
    (d.copyWhere source active).get d.storage i =
      if active i then source.spread d.storage i else d.get d.storage i := by
  obtain ⟨s, xs⟩ := d
  obtain ⟨s', ys⟩ := source
  obtain rfl : s' = s := h
  have hxs : xs[i]? = some xs[i] := Array.getElem?_eq_getElem hi
  simp only [size] at hsource
  simp only [copyWhere, as?_self, spread, get_mk, Array.getElem?_mapIdx, hxs, Option.map_some,
    Option.getD_some, size]
  by_cases hy : ys.size = 1
  · simp [hy]
  · have hi' : i < ys.size := by omega
    simp [hy, hi']

theorem copyWhere_of_storage_ne {d source : Data} (h : source.storage ≠ d.storage)
    (active : Nat → Bool) : d.copyWhere source active = d := by
  simp [copyWhere, as?, h]

/-- Data of one element is known by it. -/
theorem ext_of_size_one {d e : Data} (hs : d.storage = e.storage) (hd : d.size = 1)
    (he : e.size = 1) (h : d.get d.storage 0 = e.get d.storage 0) : d = e := by
  obtain ⟨s, xs⟩ := d
  obtain ⟨s', ys⟩ := e
  obtain rfl : s = s' := hs
  simp only [size] at hd he
  simp only [get_mk, Array.getElem?_eq_getElem (show 0 < xs.size by omega),
    Array.getElem?_eq_getElem (show 0 < ys.size by omega), Option.getD_some] at h
  congr 1
  refine Array.ext (hd.trans he.symm) fun k hk hk' => ?_
  obtain rfl : k = 0 := by omega
  exact h

end Data

namespace Value

/-- Values of the same kind, sized to a grid of `n` points and to a grid of one. -/
structure SameShape (n : Nat) (v w : Value) : Prop where
  type : v.type = w.type
  detail : v.detail = w.detail
  storage : v.data.storage = w.data.storage
  size : v.size = v.detail.length n
  size_one : w.size = 1

/-- Values that are the same if they are uniform, and else at the point if it is live. -/
structure SamePoint (n i : Nat) (live : Bool) (v w : Value) : Prop extends SameShape n v w where
  uniform : v.detail = .uniform → v.data = w.data
  varying : v.detail = .varying → live = true →
    v.data.get v.data.storage i = w.data.get v.data.storage 0

variable {n i : Nat} {v w : Value}

theorem SameShape.isVarying (h : SameShape n v w) : v.isVarying = w.isVarying := by
  simp only [Value.isVarying, h.detail]

theorem SameShape.lt_size (h : SameShape n v w) (hi : i < n) (hv : v.detail = .varying) :
    i < v.data.size := by
  have hs : v.data.size = v.detail.length n := h.size
  simp only [hv, Detail.length] at hs
  omega

namespace SamePoint

variable {live : Bool}

theorem get_of_uniform (h : SamePoint n i live v w) (hu : v.detail = .uniform) (s : Storage)
    (k l : Nat) : v.get s k = w.get s l := by
  have hw := h.detail.symm.trans hu
  simp only [Value.get, place, Value.isVarying, hu, hw, h.uniform hu, Detail.isVarying]
  rfl

theorem get (h : SamePoint n i live v w) (hl : live = true) (s : Storage) :
    v.get s i = w.get s 0 := by
  cases hd : v.detail with
  | uniform => exact h.get_of_uniform hd s i 0
  | varying =>
    have hw := h.detail.symm.trans hd
    simp only [Value.get, place, Value.isVarying, hd, hw, Detail.isVarying]
    by_cases hs : v.data.storage = s
    · subst hs
      exact h.varying hd hl
    · rw [Data.get_of_storage_ne hs, Data.get_of_storage_ne (h.storage ▸ hs)]

/-- A point that is not live is compared less. -/
theorem weaken (h : SamePoint n i true v w) : SamePoint n i live v w :=
  ⟨h.toSameShape, h.uniform, fun hv _ => h.varying hv rfl⟩

/-- The data of the same values, for a slot of their type and detail. -/
theorem data (h : SamePoint n i live v w) {type : ValueType} {detail : Detail}
    (ht : v.type = type) (hd : v.detail = detail) :
    SamePoint n i live ⟨type, detail, v.data⟩ ⟨type, detail, w.data⟩ := by
  obtain ⟨vt, vd, d⟩ := v
  obtain ⟨wt, wd, e⟩ := w
  obtain rfl : vt = type := ht
  obtain rfl : vd = detail := hd
  obtain rfl : vt = wt := h.type
  obtain rfl : vd = wd := h.detail
  exact h

end SamePoint

/-- What is read of a source that may be a single element. -/
theorem SamePoint.spread (h : SamePoint n i true v w) (hi : i < n) (s : Storage) :
    v.data.spread s i = w.data.spread s 0 := by
  have hw1 : w.data.size = 1 := h.size_one
  have hg := h.get rfl s
  cases hv : v.detail with
  | uniform => simp [Data.spread, h.uniform hv, hw1]
  | varying =>
    have hw := h.detail.symm.trans hv
    have hsize : v.data.size = max n 1 := by
      simpa [Value.size, hv, Detail.length] using h.size
    simp only [Value.get, place, Value.isVarying, hv, hw, Detail.isVarying, if_true] at hg
    by_cases hone : v.data.size = 1
    · obtain rfl : i = 0 := by omega
      simpa [Data.spread, hone, hw1] using hg
    · simpa [Data.spread, hone, hw1] using hg

variable {m o : Mask}

/-- Taking over a source under the mask. What the source is where the point does not run does
not count. -/
theorem SamePoint.copyWhere (h : SamePoint n i true v w) (hi : i < n)
    (hm : Mask.SameBit n i m o) {source source' : Value}
    (hsource : source.SamePoint n i (m.get i) source')
    (huniform : v.detail = .uniform → source.detail = .uniform) :
    SamePoint n i true
      { v with data := v.data.copyWhere source.data fun k => !v.isVarying || m.get k }
      { w with data := w.data.copyWhere source'.data fun k => !v.isVarying || o.get k } := by
  have hw1 : w.data.size = 1 := h.size_one
  have hsource1 : source'.data.size = 1 := hsource.size_one
  refine ⟨⟨h.type, h.detail, ?_, ?_, ?_⟩, fun hu => ?_, fun hv _ => ?_⟩
  · simpa using h.storage
  · simpa [Value.size] using h.size
  · simpa [Value.size] using hw1
  · have hu' : v.detail = .uniform := hu
    have hvary : v.isVarying = false := by simp [Value.isVarying, hu', Detail.isVarying]
    simp only [h.uniform hu', hsource.uniform (huniform hu'), hvary, Bool.not_false, Bool.true_or]
  · have hv' : v.detail = .varying := hv
    have hvary : v.isVarying = true := by simp [Value.isVarying, hv', Detail.isVarying]
    rw [Data.storage_copyWhere]
    simp only [hvary, Bool.not_true, Bool.false_or]
    by_cases hs : source.data.storage = v.data.storage
    · have hs' : source'.data.storage = w.data.storage := by
        rw [← hsource.storage, hs, h.storage]
      have hsize : source.data.size = 1 ∨ i < source.data.size := by
        cases hsd : source.detail with
        | uniform => exact .inl (by simpa [Value.size, hsd, Detail.length] using hsource.size)
        | varying => exact .inr (hsource.lt_size hi hsd)
      rw [Data.get_copyWhere hs (h.lt_size hi hv') hsize, h.storage,
        Data.get_copyWhere hs' (by omega) (.inl hsource1), ← h.storage, ← hm.get]
      cases hl : m.get i with
      | false => simpa using h.varying hv' rfl
      | true =>
        rw [hl] at hsource
        simpa using hsource.spread hi v.data.storage
    · have hs' : source'.data.storage ≠ w.data.storage := by
        rw [← hsource.storage, ← h.storage]
        exact hs
      rw [Data.copyWhere_of_storage_ne hs, Data.copyWhere_of_storage_ne hs']
      exact h.varying hv' rfl

/-- The same result is written, whatever was there before. -/
theorem SameShape.write (h : SameShape n v w) (hi : i < n) (hm : Mask.SameBit n i m o)
    {s : Storage} (hs : v.data.storage = s) {f g : Nat → s.Elem}
    (huniform : v.detail = .uniform → f 0 = g 0) (hvarying : m.get i = true → f i = g 0) :
    SamePoint n i (m.get i) (v.write s m f) (w.write s o g) := by
  have hws : w.data.storage = s := h.storage.symm.trans hs
  have hw1 : w.data.size = 1 := h.size_one
  refine ⟨⟨h.type, h.detail, ?_, ?_, ?_⟩, fun hu => ?_, fun hv hl => ?_⟩
  · simpa [Value.write] using h.storage
  · simpa [Value.write, Value.size] using h.size
  · simpa [Value.write, Value.size] using hw1
  · have hu' : v.detail = .uniform := hu
    have hw' := h.detail.symm.trans hu'
    have hv1 : v.data.size = 1 := by simpa [Value.size, hu', Detail.length] using h.size
    have hvp : v.points m = [0] := by simp [Value.points, Value.isVarying, hu', Detail.isVarying]
    have hwp : w.points o = [0] := by simp [Value.points, Value.isVarying, hw', Detail.isVarying]
    simp only [Value.write, hvp, hwp]
    refine Data.ext_of_size_one (by simpa using h.storage) (by simpa using hv1)
      (by simpa using hw1) ?_
    rw [Data.storage_write, hs, Data.get_write hs _ _ (by omega),
      Data.get_write hws _ _ (by omega)]
    simpa using huniform hu'
  · have hv' : v.detail = .varying := hv
    have hw' := h.detail.symm.trans hv'
    have hvp : v.points m = m.ones := by simp [Value.points, Value.isVarying, hv', Detail.isVarying]
    have hwp : w.points o = o.ones := by simp [Value.points, Value.isVarying, hw', Detail.isVarying]
    have him : i ∈ m.ones := (Mask.mem_ones (by rw [hm.size]; exact hi)).mpr hl
    have h0 : 0 ∈ o.ones := (Mask.mem_ones (by rw [hm.size_one]; omega)).mpr (hm.get ▸ hl)
    have hstorage : (v.write s m f).data.storage = s := (Data.storage_write ..).trans hs
    rw [hstorage]
    simp only [Value.write, hvp, hwp]
    rw [Data.get_write hs _ _ (h.lt_size hi hv'), Data.get_write hws _ _ (by omega), if_pos him,
      if_pos h0]
    exact hvarying hl

end Value

namespace Curried

variable {α : Type}

theorem applyAt_congr {inputs : List Storage} (f : Curried α inputs) {vs ws : List Value}
    {i j : Nat} (h : List.Forall₂ (fun v w => ∀ s, v.get s i = w.get s j) vs ws) :
    applyAt inputs f vs i = applyAt inputs f ws j := by
  induction inputs generalizing vs ws with
  | nil => rfl
  | cons s inputs ih =>
    cases h with
    | nil => exact ih (f s.initial) .nil
    | cons hv hvs =>
      simp only [applyAt]
      rw [hv s]
      exact ih _ hvs

end Curried

namespace Elementwise

variable {n i : Nat} {m o : Mask}

theorem checkOperands_congr (op : String) (inputs : List Storage) {vs ws : List Value}
    (h : List.Forall₂ (Value.SameShape n) vs ws) :
    checkOperands op inputs vs = checkOperands op inputs ws := by
  induction inputs generalizing vs ws with
  | nil => rfl
  | cons s inputs ih =>
    cases h with
    | nil => rfl
    | cons hv hvs =>
      simp only [checkOperands, hv.storage, hv.type]
      split
      · exact ih hvs
      · rfl

/-- A function applied point by point gives the same at the point, or the same error. -/
theorem fill_samePoint (f : Elementwise) (op : String) (hi : i < n) (hm : Mask.SameBit n i m o)
    {vs ws : List Value} (hvs : List.Forall₂ (Value.SamePoint n i (m.get i)) vs ws)
    {out out' : Value} (hout : out.SameShape n out')
    (huniform : out.detail = .uniform → ∀ v ∈ vs, v.detail = .uniform) :
    SameOutcome (fun v w => v.SamePoint n i (m.get i) w ∧ v.type = out.type ∧
      v.detail = out.detail) (f.fill op vs out m) (f.fill op ws out' o) := by
  have hshapes : List.Forall₂ (Value.SameShape n) vs ws := hvs.imp fun _ _ h => h.toSameShape
  unfold fill
  rw [← checkOperands_congr op f.inputs hshapes, ← hout.storage, ← hout.type]
  cases checkOperands op f.inputs vs with
  | error e => exact .error e
  | ok u =>
    by_cases hs : out.data.storage = f.output
    · rw [if_neg (not_not.mpr hs), if_neg (not_not.mpr hs)]
      refine .ok ⟨hout.write hi hm hs (fun hu => ?_) fun hl => ?_, rfl, rfl⟩
      · refine Curried.applyAt_congr f.apply (List.forall₂_iff_get.mpr ?_)
        obtain ⟨hlen, hget⟩ := List.forall₂_iff_get.mp hvs
        refine ⟨hlen, fun k hk hk' s => ?_⟩
        exact (hget k hk hk').get_of_uniform (huniform hu _ (List.get_mem vs ⟨k, hk⟩)) s 0 0
      · exact Curried.applyAt_congr f.apply (hvs.imp fun v w h s => h.get hl s)
    · rw [if_pos hs, if_pos hs]
      exact .error _

end Elementwise

namespace Variable

/-- Variables that are the same if they are uniform, and else at the point. -/
structure SamePoint (n i : Nat) (v w : Variable) : Prop where
  value : v.toValue.SamePoint n i true w.toValue
  name : v.name = w.name
  param : v.param = w.param
  output : v.output = w.output

/-- An assignment under the mask is the same at the point, or fails for the same reason. -/
theorem SamePoint.assign {n i : Nat} {m o : Mask} {v w : Variable} (h : SamePoint n i v w)
    (hi : i < n) (hm : Mask.SameBit n i m o) {source source' : Value}
    (hsource : source.SamePoint n i (m.get i) source') :
    SameOutcome (SamePoint n i) (v.assign source m) (w.assign source' o) := by
  unfold Variable.assign
  rw [← h.value.type, ← hsource.type, ← h.name, ← h.value.isVarying, ← hsource.isVarying]
  by_cases ht : v.type.storage = source.type.storage
  · rw [if_neg (not_not.mpr ht), if_neg (not_not.mpr ht)]
    by_cases hd : (!v.isVarying && source.isVarying) = true
    · rw [if_pos hd, if_pos hd]
      exact .error _
    · rw [if_neg hd, if_neg hd]
      have huniform : v.detail = .uniform → source.detail = .uniform := fun hu => by
        cases hs : source.detail with
        | uniform => rfl
        | varying => simp [Value.isVarying, hu, hs, Detail.isVarying] at hd
      exact .ok ⟨h.value.copyWhere hi hm hsource huniform, h.name, h.param, h.output⟩
  · rw [if_pos ht, if_pos ht]
    exact .error _

end Variable

end ShadingMachine
