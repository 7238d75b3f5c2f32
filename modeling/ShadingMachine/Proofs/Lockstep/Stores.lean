import ShadingMachine.Machine.Access
import ShadingMachine.Proofs.Lockstep.Operands

/-! What is stored of values that agree. Assigning one or the other to a variable, or to the elements
of an array point by point, leaves the same variables, if they agree at the points of the mask; and
the elements that are read of an array at one index or the other are the same. -/
namespace ShadingMachine

/-- The points at which a value of that detail is written. -/
def Detail.points (d : Detail) (mask : Mask) : List Nat := if d.isVarying then mask.ones else [0]

namespace Data

/-- Two elements are the same after one is written to both data, or were so before. -/
theorem get_set_congr {d e : Data} (hs : d.storage = e.storage) (hsize : d.size = e.size) (i : Nat)
    (x : d.storage.Elem) {k : Nat} {s : Storage} (h : k ≠ i → d.get s k = e.get s k) :
    (d.set d.storage i x).get s k = (e.set d.storage i x).get s k := by
  obtain ⟨s', xs⟩ := d
  obtain ⟨s'', ys⟩ := e
  obtain rfl : s' = s'' := hs
  simp only [size] at hsize
  simp only [Data.set, as?_self]
  by_cases hs : s' = s
  · subst hs
    simp only [get_mk, Array.getElem?_setIfInBounds, hsize] at h ⊢
    split
    · rfl
    · exact h (Ne.symm ‹_›)
  · rw [get_of_storage_ne hs, get_of_storage_ne hs]

theorem getElem?_eq_of_getD_eq {α : Type} {xs ys : Array α} (hsize : xs.size = ys.size) {a : α}
    {k : Nat} (h : xs[k]?.getD a = ys[k]?.getD a) : xs[k]? = ys[k]? := by
  by_cases hlt : k < xs.size
  · have hlt' : k < ys.size := by omega
    simpa [hlt, hlt'] using h
  · rw [Array.getElem?_eq_none (by omega), Array.getElem?_eq_none (by omega)]

/-- Data of one size and with the same elements where they are taken over. -/
theorem copyWhere_congr {d a b : Data} {active : Nat → Bool} (hs : a.storage = b.storage)
    (hsize : a.size = b.size)
    (h : ∀ i, active i = true → a.spread a.storage i = b.spread a.storage i) :
    d.copyWhere a active = d.copyWhere b active := by
  obtain ⟨s, xs⟩ := a
  obtain ⟨s', ys⟩ := b
  obtain rfl : s = s' := hs
  simp only [size] at hsize
  by_cases hd : s = d.storage
  · obtain ⟨s', zs⟩ := d
    obtain rfl : s = s' := hd
    simp only [copyWhere, as?_self]
    refine congrArg (fun f => Data.mk s (zs.mapIdx f)) (funext₂ fun i old => ?_)
    split
    · rename_i hactive
      have hspread := h i hactive
      simp only [spread, get_mk, size, ← hsize] at hspread
      rw [← hsize]
      have he := getElem?_eq_of_getD_eq hsize hspread
      by_cases hone : xs.size = 1
      · simpa [hone] using congrArg (·.getD old) he
      · simpa [hone] using congrArg (·.getD old) he
    · rfl
  · rw [copyWhere_of_storage_ne hd, copyWhere_of_storage_ne hd]

end Data

namespace Value

variable {P : Nat → Prop} {v w : Value}

/-- Uniform values that agree are the same. -/
theorem Agrees.eq_of_detail (h : v.Agrees Eq P w) (hv : v.detail = .uniform) : v = w := by
  have hdata := h.uniform hv (h.detail ▸ hv)
  obtain ⟨type, detail, d⟩ := v
  obtain ⟨type', detail', d'⟩ := w
  obtain rfl : type = type' := h.type
  obtain rfl : detail = detail' := h.detail
  obtain rfl : d = d' := hdata
  rfl

/-- Values that agree wherever they are read differ at most in what is left over. -/
theorem Agrees.assign {n : Nat} {V : Value → Prop} (hV : Fitting n V) (h : v.Agrees Eq P w)
    (hv : V v) (hw : V w) {mask : Mask} (hmask : mask.size ≤ n) (hP : ∀ i ∈ mask.ones, P i)
    (x : Variable) : x.assign v mask = x.assign w mask := by
  cases hd : v.detail with
  | uniform => rw [h.eq_of_detail hd]
  | varying =>
    have hd' : w.detail = .varying := h.detail ▸ hd
    have hsize : v.data.size = n := hV.size hv hd
    have hsize' : w.data.size = n := hV.size hw hd'
    unfold Variable.assign
    simp only [isVarying, hd, hd', h.type]
    split
    · rfl
    split
    · rfl
    rename_i huniform
    have hx : x.detail.isVarying = true := by simpa [Detail.isVarying] using huniform
    simp only [hx, Bool.not_true, Bool.false_or]
    refine congrArg (fun f => Except.ok (x.mapValue f)) (funext fun old => ?_)
    have hcopy : old.data.copyWhere v.data (mask.get ·) = old.data.copyWhere w.data (mask.get ·) := by
      refine Data.copyWhere_congr h.storage (hsize.trans hsize'.symm) fun i hi => ?_
      have hlt := Mask.lt_size_of_get hi
      have hmem : i ∈ mask.ones := (Mask.mem_ones hlt).mpr hi
      have hget := h.get _ (hP i hmem) v.data.storage
      unfold Value.get at hget
      rw [place_varying hd, place_varying hd'] at hget
      unfold Data.spread
      rw [hsize, hsize']
      -- the grid of one point has the point 0 only
      split
      · obtain rfl : i = 0 := by omega
        exact hget
      · exact hget
    rw [hcopy]

theorem sameKind_set (v : Value) (s : Storage) (i : Nat) (x : s.Elem) : v.SameKind (v.set s i x) := by
  unfold Value.set
  rw [Data.set_eq_write]
  exact ⟨rfl, rfl, Data.storage_write .., Data.size_write ..⟩

/-- The same element is written at a point. -/
theorem Agrees.set (h : v.Agrees Eq P w) (hsize : v.size = w.size) (i : Nat) {s : Storage}
    (hs : v.data.storage = s) (x : s.Elem) :
    (v.set s i x).Agrees Eq (fun k => P k ∨ k = i) (w.set s i x) := by
  subst hs
  cases hd : v.detail with
  | uniform =>
    rw [← h.eq_of_detail hd]
    exact .refl Detail.allows_eq _ _
  | varying =>
    have hd' : w.detail = .varying := h.detail ▸ hd
    have hv := v.sameKind_set v.data.storage i x
    have hw := w.sameKind_set v.data.storage i x
    refine ⟨h.type, h.detail, by rw [hv.storage, hw.storage, h.storage], fun hu => ?_, ?_⟩
    · cases hd.symm.trans hu
    · intro k hk s
      unfold Value.set Value.get
      rw [place_varying hd, place_varying hd']
      show (v.data.set _ _ _).get s (v.place k) = (w.data.set _ _ _).get s (w.place k)
      rw [place_varying hd, place_varying hd']
      refine Data.get_set_congr h.storage hsize i x fun hki => ?_
      have hget := h.get k (hk.resolve_right hki) s
      unfold Value.get at hget
      rwa [place_varying hd, place_varying hd'] at hget

/-- The same element is written at a point of which nothing need be known. -/
theorem Agrees.set_imp (h : v.Agrees Eq P w) (hsize : v.size = w.size) (i : Nat) (s : Storage)
    (x : s.Elem) : (v.set s i x).Agrees Eq P (w.set s i x) := by
  by_cases hs : v.data.storage = s
  · exact (h.set hsize i hs x).imp fun _ hk => .inl hk
  · have hs' : w.data.storage ≠ s := h.storage ▸ hs
    have hset {u : Value} (hu : u.data.storage ≠ s) : u.set s i x = u := by
      unfold Value.set Data.set Data.as?
      rw [dif_neg hu]
    rwa [hset hs, hset hs']

/-- The one element of a uniform result is all there is of it. -/
theorem IsShaped.agrees_set_uniform {n n' : Nat} (h : v.IsShaped n) (h' : w.IsShaped n')
    (ht : v.type = w.type) (hv : v.detail = .uniform) (hw : w.detail = .uniform)
    (x : v.type.storage.Elem) :
    (v.set v.type.storage 0 x).Agrees Eq P (w.set v.type.storage 0 x) := by
  obtain ⟨type, detail, d⟩ := v
  obtain ⟨type', detail', d'⟩ := w
  obtain rfl : type = type' := ht
  obtain rfl : detail = .uniform := hv
  obtain rfl : detail' = .uniform := hw
  have hs : d.storage = type.storage := h.storage
  have hs' : d'.storage = type.storage := h'.storage
  have hsize : d.size = 1 := h.size_uniform rfl
  have hsize' : d'.size = 1 := h'.size_uniform rfl
  have hdata : d.set type.storage 0 x = d'.set type.storage 0 x := by
    rw [Data.set_eq_write, Data.set_eq_write]
    refine Data.ext_of_size_one ?_ (by simpa using hsize) (by simpa using hsize') ?_
    · rw [Data.storage_write, Data.storage_write, hs, hs']
    · rw [Data.storage_write, hs, Data.get_write hs _ _ (by omega),
        Data.get_write hs' _ _ (by omega)]
      simp
  show Agrees Eq P ⟨type, .uniform, d.set type.storage 0 x⟩ ⟨type, .uniform, d'.set type.storage 0 x⟩
  rw [hdata]
  exact .refl Detail.allows_eq _ _

/-- Nothing is known of new varying slots but their kind. -/
theorem IsShaped.agrees_nowhere {n n' : Nat} (h : v.IsShaped n) (h' : w.IsShaped n')
    (ht : v.type = w.type) (hv : v.detail = .varying) (hw : w.detail = .varying) :
    v.Agrees Eq (fun _ => False) w where
  type := ht
  detail := hv.trans hw.symm
  storage := by rw [h.storage, h'.storage, ht]
  uniform hu := by cases hv.symm.trans hu
  get _ := False.elim

/-- What is read of an operand at the points where a result is computed: a uniform result has uniform
operands, which have one element only. -/
theorem Agrees.get_points (h : v.Agrees Eq P w) {detail : Detail} {mask : Mask}
    (hP : ∀ i ∈ mask.ones, P i) (hu : detail = .uniform → v.detail = .uniform) {i : Nat}
    (hi : i ∈ detail.points mask) (s : Storage) : v.get s i = w.get s i := by
  cases detail with
  | uniform => rw [h.eq_of_detail (hu rfl)]
  | varying => exact h.get i (hP i hi) s

/-- Results of one type and detail that are written alike agree at the points that are written. -/
theorem IsShaped.agrees_fill {n : Nat} (h : v.IsShaped n) (h' : w.IsShaped n) (ht : v.type = w.type)
    (hd : v.detail = w.detail) {mask : Mask} (hmask : ∀ i ∈ mask.ones, i < n) {s : Storage}
    (hs : v.type.storage = s) {f g : Nat → s.Elem} (hfg : ∀ i ∈ v.detail.points mask, f i = g i) :
    (v.write s mask f).Agrees Eq (· ∈ mask.ones) (w.write s mask g) := by
  subst hs
  refine (h.agrees_write h' ht hd mask (fun hu _ => hfg 0 ?_) fun i hi _ => ?_).imp fun i hi =>
    ⟨hi, hmask i hi⟩
  · rw [hu]
    exact List.mem_singleton_self 0
  · rw [← hd]
    cases hdetail : v.detail with
    | uniform => exact hfg 0 (by rw [hdetail]; exact List.mem_singleton_self 0)
    | varying => exact hfg i (by rw [hdetail]; exact hi)

theorem write_congr (v : Value) {s : Storage} {mask : Mask} {f g : Nat → s.Elem}
    (h : ∀ i ∈ v.detail.points mask, f i = g i) : v.write s mask f = v.write s mask g := by
  unfold write Data.write
  cases v.data.as? s with
  | none => rfl
  | some xs =>
    dsimp only
    rw [List.foldl_ext _ _ xs fun xs i hi => by rw [h i hi]]

theorem IsShaped.set {n : Nat} {v : Value} (h : v.IsShaped n) (s : Storage) (i : Nat) (x : s.Elem) :
    (v.set s i x).IsShaped n := h.sameKind (v.sameKind_set s i x)

end Value

namespace VariableArray

variable {P : Nat → Prop} {a : VariableArray} {index index' : Value}

theorem lt_of_place? {x : Float32} {k : Nat} (h : a.place? x = .ok k) : k < a.elements.size := by
  unfold place? at h
  dsimp only at h
  split at h
  · cases h
    show _ < a.length
    omega
  · cases h

theorem sameKind_gather (index : Value) (points : List Nat) (out : Value) :
    out.SameKind (a.gather index points out).1 := by
  induction points generalizing out with
  | nil => exact .refl out
  | cons i points ih =>
    unfold gather
    split
    · rename_i k _
      cases a.elements[k]? with
      | none => exact ih out
      | some e => exact (out.sameKind_set _ _ _).trans (ih _)
    · exact .refl out

/-- Read at indices that agree, the elements of an array are the same, and so is the first index
that is outside the array. -/
theorem agrees_gather (ha : ∀ e ∈ a.elements, e.data.storage = a.type.storage) (points : List Nat)
    (hindex : ∀ k ∈ points, index.getFloat k = index'.getFloat k) {out out' : Value}
    (h : out.Agrees Eq P out') (hs : out.data.storage = a.type.storage)
    (hsize : out.size = out'.size) :
    (a.gather index points out).2 = (a.gather index' points out').2 ∧
      ((a.gather index points out).2 = .ok () → (a.gather index points out).1.Agrees Eq
        (fun k => P k ∨ k ∈ points) (a.gather index' points out').1) := by
  induction points generalizing out out' P with
  | nil => exact ⟨rfl, fun _ => h.imp fun i hi => hi.resolve_right (by simp)⟩
  | cons i points ih =>
    obtain ⟨hi, hpoints⟩ := List.forall_mem_cons.mp hindex
    unfold gather
    rw [hi]
    cases hk : a.place? (index'.getFloat i) with
    | error e => exact ⟨rfl, fun he => by cases he⟩
    | ok k =>
      obtain ⟨e, he⟩ : ∃ e, a.elements[k]? = some e :=
        ⟨_, Array.getElem?_eq_getElem (lt_of_place? hk)⟩
      have hes : out.data.storage = e.data.storage := hs.trans (ha e (Array.mem_of_getElem? he)).symm
      have hcopy := h.set hsize i hes (e.get e.data.storage i)
      have hkind := out.sameKind_set e.data.storage i (e.get e.data.storage i)
      have hkind' := out'.sameKind_set e.data.storage i (e.get e.data.storage i)
      simp only [he, Option.map_some, Option.elim_some]
      obtain ⟨hdone, hagrees⟩ := ih hpoints hcopy (hkind.storage.trans hs)
        (hkind.size.trans (hsize.trans hkind'.size.symm))
      refine ⟨hdone, fun hok => (hagrees hok).imp fun m hm => ?_⟩
      rw [List.mem_cons] at hm
      tauto

theorem scatter_congr {source source' : Value} (points : List Nat)
    (hindex : ∀ k ∈ points, index.getFloat k = index'.getFloat k)
    (hs : source.data.storage = source'.data.storage)
    (hsource : ∀ k ∈ points, ∀ s, source.get s k = source'.get s k) (a : VariableArray) :
    a.scatter index source points = a.scatter index' source' points := by
  induction points generalizing a with
  | nil => rfl
  | cons i points ih =>
    obtain ⟨hi, hpoints⟩ := List.forall_mem_cons.mp hindex
    obtain ⟨hsi, hspoints⟩ := List.forall_mem_cons.mp hsource
    unfold scatter
    rw [hi]
    have hcopy (v : Value) : v.copyPoint source i = v.copyPoint source' i := by
      unfold Value.copyPoint
      rw [hs, hsi]
    simp only [hcopy, ih hpoints hspoints]

end VariableArray

end ShadingMachine
