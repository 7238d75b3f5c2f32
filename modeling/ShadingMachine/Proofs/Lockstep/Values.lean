import ShadingMachine.Proofs.Frame.Points

/-! Values of two sessions on one grid that agree at some of its points. Their details may differ as
far as a relation allows: not at all, or so that a uniform value faces a varying one. What is
computed point by point from values that agree at the active points agrees there again, whatever
the results held before. -/
namespace ShadingMachine

namespace Detail

/-- A relation of details that allows equal ones, never a varying one beside a uniform one, and is
kept where details are joined. -/
structure Allows (D : Detail → Detail → Prop) : Prop where
  refl (d : Detail) : D d d
  varying {e : Detail} : D .varying e → e = .varying
  join {d e d' e' : Detail} : D d e → D d' e' → D (d.join d') (e.join e')

theorem allows_eq : Allows Eq where
  refl _ := rfl
  varying h := h.symm
  join h h' := by rw [h, h']

variable {D : Detail → Detail → Prop}

theorem Allows.uniform (hD : Allows D) {d : Detail} (h : D d .uniform) : d = .uniform := by
  cases d with
  | uniform => rfl
  | varying => cases hD.varying h

theorem Allows.joinAll (hD : Allows D) {ds es : List Detail} (h : List.Forall₂ D ds es) :
    D (joinAll ds) (joinAll es) := by
  have hfoldl : ∀ d e : Detail, D d e →
      D (ds.foldl Detail.join d) (es.foldl Detail.join e) := by
    induction h with
    | nil => exact fun _ _ hde => hde
    | cons hd _ ih => exact fun _ _ hde => ih _ _ (hD.join hde hd)
  exact hfoldl _ _ (hD.refl _)

end Detail

namespace Value

/-- Its data has the storage of its type, and as many elements as its detail has on a grid of `n`
points. -/
structure IsShaped (n : Nat) (v : Value) : Prop where
  storage : v.data.storage = v.type.storage
  size : v.size = v.detail.length n

variable {n : Nat}

theorem IsShaped.size_uniform {v : Value} (h : v.IsShaped n) (hu : v.detail = .uniform) :
    v.data.size = 1 := by
  simpa [Value.size, hu, Detail.length] using h.size

theorem IsShaped.size_varying {v : Value} (h : v.IsShaped n) (hv : v.detail = .varying) :
    v.data.size = max n 1 := by
  simpa [Value.size, hv, Detail.length] using h.size

theorem IsShaped.sameKind {v w : Value} (h : v.IsShaped n) (hw : v.SameKind w) : w.IsShaped n where
  storage := by rw [hw.storage, hw.type, h.storage]
  size := by rw [hw.size, hw.detail, h.size]

theorem isVarying_eq_false_iff {v : Value} : v.isVarying = false ↔ v.detail = .uniform := by
  unfold isVarying
  cases v.detail <;> simp [Detail.isVarying]

theorem place_uniform {v : Value} (h : v.detail = .uniform) (i : Nat) : v.place i = 0 := by
  simp [place, isVarying, h, Detail.isVarying]

theorem place_varying {v : Value} (h : v.detail = .varying) (i : Nat) : v.place i = i := by
  simp [place, isVarying, h, Detail.isVarying]

theorem points_uniform {v : Value} (h : v.detail = .uniform) (mask : Mask) :
    v.points mask = [0] := by
  simp [points, isVarying, h, Detail.isVarying]

theorem points_varying {v : Value} (h : v.detail = .varying) (mask : Mask) :
    v.points mask = mask.ones := by
  simp [points, isVarying, h, Detail.isVarying]

theorem get_of_uniform {v : Value} (h : v.detail = .uniform) (s : Storage) (i j : Nat) :
    v.get s i = v.get s j := by
  unfold get
  rw [place_uniform h, place_uniform h]

/-- Values of one type that may differ in their details as far as `D` allows. Uniform ones are the
same, and others have the same elements at the points of `P`. -/
structure Agrees (D : Detail → Detail → Prop) (P : Nat → Prop) (v w : Value) : Prop where
  type : v.type = w.type
  detail : D v.detail w.detail
  storage : v.data.storage = w.data.storage
  uniform : v.detail = .uniform → w.detail = .uniform → v.data = w.data
  get (i : Nat) : P i → ∀ s, v.get s i = w.get s i

namespace Agrees

variable {D : Detail → Detail → Prop} {P Q : Nat → Prop} {v w : Value}

theorem refl (hD : Detail.Allows D) (P : Nat → Prop) (v : Value) : Agrees D P v v :=
  ⟨rfl, hD.refl _, rfl, fun _ _ => rfl, fun _ _ _ => rfl⟩

theorem imp (h : Agrees D P v w) (hPQ : ∀ i, Q i → P i) : Agrees D Q v w :=
  ⟨h.type, h.detail, h.storage, h.uniform, fun i hi => h.get i (hPQ i hi)⟩

/-- The data of values that agree, for slots of their type and details. -/
theorem data (h : Agrees D P v w) {type : ValueType} {detail detail' : Detail} (ht : v.type = type)
    (hd : v.detail = detail) (hd' : w.detail = detail') :
    Agrees D P ⟨type, detail, v.data⟩ ⟨type, detail', w.data⟩ := by
  obtain ⟨vt, vd, d⟩ := v
  obtain ⟨wt, wd, e⟩ := w
  obtain rfl : vt = type := ht
  obtain rfl : vd = detail := hd
  obtain rfl : wd = detail' := hd'
  obtain rfl : vt = wt := h.type
  exact h

/-- Uniform operands on both sides are the same. -/
theorem eq_of_uniform {vs ws : List Value} (h : List.Forall₂ (Agrees D P) vs ws)
    (hvs : ∀ v ∈ vs, v.detail = .uniform) (hws : ∀ w ∈ ws, w.detail = .uniform) : vs = ws := by
  induction h with
  | nil => rfl
  | @cons v w vs ws hv _ ih =>
    obtain ⟨hvd, hvs'⟩ := List.forall_mem_cons.mp hvs
    obtain ⟨hwd, hws'⟩ := List.forall_mem_cons.mp hws
    have hdata := hv.uniform hvd hwd
    obtain ⟨vt, vd, d⟩ := v
    obtain ⟨wt, wd, e⟩ := w
    obtain rfl : vt = wt := hv.type
    obtain rfl : vd = .uniform := hvd
    obtain rfl : wd = .uniform := hwd
    obtain rfl : d = e := hdata
    rw [ih hvs' hws']

end Agrees

variable {D : Detail → Detail → Prop}

theorem sameKind_write (v : Value) (s : Storage) (mask : Mask) (f : Nat → s.Elem) :
    v.SameKind (v.write s mask f) := ⟨rfl, rfl, Data.storage_write .., Data.size_write ..⟩

/-- The data of a result after a write, at a point that is written. -/
theorem IsShaped.get_write {out : Value} (h : out.IsShaped n) (mask : Mask)
    (f : Nat → out.type.storage.Elem) {i : Nat} (hi : i ∈ mask.ones) (hn : i < n) :
    (out.write out.type.storage mask f).get out.type.storage i =
      f (if out.detail = .uniform then 0 else i) := by
  show (out.data.write out.type.storage (out.points mask) f).get out.type.storage (out.place i) = _
  cases hd : out.detail with
  | uniform =>
    rw [place_uniform hd, points_uniform hd,
      Data.get_write h.storage _ _ (by rw [h.size_uniform hd]; omega)]
    simp
  | varying =>
    rw [place_varying hd, points_varying hd,
      Data.get_write h.storage _ _ (by rw [h.size_varying hd]; omega), if_pos hi]
    rfl

/-- Results of one type are written point by point: once each if both are uniform, and else so that
what is written at an active point is the same. -/
theorem IsShaped.agrees_write {out out' : Value} (h : out.IsShaped n) (h' : out'.IsShaped n)
    (htype : out.type = out'.type) (hD : D out.detail out'.detail) (mask : Mask)
    {f g : Nat → out.type.storage.Elem}
    (huniform : out.detail = .uniform → out'.detail = .uniform → f 0 = g 0)
    (hactive : ∀ i ∈ mask.ones, i < n →
      f (if out.detail = .uniform then 0 else i) = g (if out'.detail = .uniform then 0 else i)) :
    Agrees D (fun i => i ∈ mask.ones ∧ i < n) (out.write out.type.storage mask f)
      (out'.write out.type.storage mask g) := by
  obtain ⟨type, detail', e⟩ := out'
  obtain rfl : out.type = type := htype
  have hs : out.data.storage = e.storage := h.storage.trans h'.storage.symm
  refine ⟨rfl, hD, ?_, fun hu hu' => ?_, fun i hi s => ?_⟩
  · simpa [Value.write] using hs
  · have hu : out.detail = .uniform := hu
    obtain rfl : detail' = .uniform := hu'
    have hsize := h.size_uniform hu
    have hstorage' : e.storage = out.type.storage := h'.storage
    have hsize' : e.size = 1 := h'.size_uniform rfl
    have hpoints : (⟨out.type, .uniform, e⟩ : Value).points mask = [0] := points_uniform rfl mask
    simp only [Value.write, points_uniform hu, hpoints]
    refine Data.ext_of_size_one (by simpa using hs) (by simpa using hsize) (by simpa using hsize') ?_
    rw [Data.storage_write, h.storage, Data.get_write h.storage _ _ (by omega),
      Data.get_write hstorage' _ _ (by omega)]
    simpa using huniform hu rfl
  · by_cases hse : out.type.storage = s
    · subst hse
      rw [h.get_write mask f hi.1 hi.2, h'.get_write mask g hi.1 hi.2]
      exact hactive i hi.1 hi.2
    · unfold Value.get
      rw [Data.get_of_storage_ne, Data.get_of_storage_ne]
      · simpa [Value.write] using h'.storage.trans_ne hse
      · simpa [Value.write] using h.storage.trans_ne hse

end Value

end ShadingMachine
