import ShadingMachine.Proofs.Lockstep.Access
import ShadingMachine.Proofs.Mask.Sets
import ShadingMachine.Proofs.Storage.MaskedAssignment

/-! Elements of varying arrays that are stored and read point by point, each point by its own index.
What one point stores is in one element at that point, so of several points each finds what it has
stored, also where two have the same index. -/
namespace ShadingMachine

namespace Data

variable {d : Data} {s : Storage} {i k : Nat}

theorem get_of_size_le (hi : d.size ≤ i) (s : Storage) : d.get s i = s.initial := by
  obtain ⟨s', xs⟩ := d
  by_cases hs : s' = s
  · subst hs
    rw [get_mk, Array.getElem?_eq_none hi, Option.getD_none]
  · exact get_of_storage_ne hs i

theorem get_set (hs : d.storage = s) (hi : i < d.size) (x : s.Elem) (k : Nat) :
    (d.set s i x).get s k = if k = i then x else d.get s k := by
  rw [set_eq_write]
  by_cases hk : k < d.size
  · rw [get_write hs _ _ hk]
    simp only [List.mem_singleton]
  · have hne : k ≠ i := by omega
    rw [if_neg hne, get_of_size_le (by rw [size_write]; omega), get_of_size_le (by omega)]

theorem get_resize {n : Nat} (hn : i < n) (hi : i < d.size) (s : Storage) :
    (d.resize n).get s i = d.get s i := by
  obtain ⟨s', xs⟩ := d
  by_cases hs : s' = s
  · subst hs
    have hi' : i < xs.size := hi
    have hxs : i < (xs.extract 0 n).size := by
      rw [Array.size_extract]
      omega
    show (Data.mk s' (xs.extract 0 n ++ Array.replicate (n - xs.size) _)).get s' i = _
    rw [get_mk, get_mk, Array.getElem?_append_left hxs, Array.getElem?_extract, if_pos (by omega),
      Nat.zero_add]
  · rw [get_of_storage_ne hs, get_of_storage_ne hs]

end Data

namespace Value

variable {v source : Value} {s : Storage} {n i : Nat}

/-- The place in an array that an index selects for a point. -/
def indexAt (index : Value) (i : Nat) : Int := Scalar.truncate (index.getFloat i)

theorem indexAt_of_uniform {index : Value} (hu : index.detail = .uniform) (i : Nat) :
    index.indexAt i = index.indexAt 0 := congrArg Scalar.truncate (get_of_uniform hu .float i 0)

theorem isVarying_of_varying (hv : v.detail = .varying) : v.isVarying = true := by
  rw [isVarying, hv]
  rfl

theorem eq_zero_of_mem_points {index : Value} {mask : Mask} (hu : index.detail = .uniform)
    (hi : i ∈ index.points mask) : i = 0 := by
  rwa [points_uniform hu, List.mem_singleton] at hi

theorem zero_mem_points {index : Value} (hu : index.detail = .uniform) (mask : Mask) :
    0 ∈ index.points mask := by
  rw [points_uniform hu]
  exact List.mem_singleton_self 0

theorem get_of_varying (hv : v.detail = .varying) (s : Storage) (i : Nat) :
    v.get s i = v.data.get s i := by rw [Value.get, place_varying hv]

theorem get_copyPoint (hv : v.detail = .varying) (hs : v.data.storage = s)
    (hsource : source.data.storage = s) (hi : i < v.size) (k : Nat) :
    (v.copyPoint source i).get s k = if k = i then source.get s i else v.get s k := by
  subst hsource
  show (v.data.set _ (v.place i) _).get _ (v.place k) = _
  rw [place_varying hv, place_varying hv, Data.get_set hs hi, get_of_varying hv]

theorem get_fitted (hv : v.detail = .varying) (hn : i < n) (hi : i < v.size) (s : Storage) :
    (v.fitted n).get s i = v.get s i := by
  show Data.get (if v.isVarying && v.size != n then v.data.resize n else v.data) s (v.place i) = _
  rw [place_varying hv, get_of_varying hv]
  split
  · exact Data.get_resize hn hi s
  · rfl

end Value

/-- What is assigned to a varying variable on a grid of `n` points, if there is room for them. -/
theorem Variable.get_after {type : ValueType} {n b : Nat} {v : Variable} {source : Value}
    {mask : Mask} (hv : v.toValue.OfKind type .varying b) (hsource : source.IsShaped n)
    (hstorage : type.storage = source.type.storage) (hle : n ≤ b) (hmask : mask.size ≤ n) (p : Nat) :
    (v.after source mask).get type.storage p =
      if mask.get p then source.get type.storage p else v.get type.storage p := by
  obtain rfl := hv.type_eq
  have haccepts : v.Accepts source := ⟨hstorage, fun _ => hv.detail_eq⟩
  have htakes := takes_after hv.toIsShaped hsource haccepts mask
  have hsize : v.size = max b 1 := hv.size_varying hv.detail_eq
  rw [Value.get_of_varying hv.detail_eq,
    Value.get_of_varying (htakes.sameKind.value.detail.trans hv.detail_eq)]
  by_cases hp : p < v.size
  · rw [htakes.varying hv.detail_eq p hp]
    by_cases hget : mask.get p = true
    · have hlt : p < n := (Mask.lt_size_of_get hget).trans_le hmask
      rw [if_pos hget, if_pos hget]
      cases hd : source.detail with
      | uniform =>
        have hone : source.size = 1 := hsource.size_uniform hd
        rw [Value.get, Value.place_uniform hd, if_pos hone]
      | varying =>
        have hsize' : source.size = max n 1 := hsource.size_varying hd
        rw [Value.get_of_varying hd]
        by_cases hone : source.size = 1
        · obtain rfl : p = 0 := by omega
          rw [if_pos hone]
        · rw [if_neg hone, if_pos (by omega)]
    · rw [if_neg hget, if_neg hget]
  · have hget : mask.get p = false := Mask.get_of_size_le (by omega)
    have hsize' : (v.after source mask).size = v.size := htakes.sameKind.value.size
    rw [hget, if_neg Bool.false_ne_true, Data.get_of_size_le (Nat.le_of_not_lt hp),
      Data.get_of_size_le (hsize'.le.trans (Nat.le_of_not_lt hp))]

namespace VariableArray

variable {a a' a'' : VariableArray} {index source out : Value} {s : Storage}
  {points points' : List Nat} {n p k : Nat}

/-- The index is in the array at all of the points. -/
def InBounds (a : VariableArray) (index : Value) (points : List Nat) : Prop :=
  ∀ p ∈ points, 0 ≤ index.indexAt p ∧ index.indexAt p < a.length

theorem place?_of_bounds (h : 0 ≤ index.indexAt p ∧ index.indexAt p < a.length) :
    a.place? (index.getFloat p) = .ok (index.indexAt p).toNat := if_pos h

theorem place?_of_not_bounds (h : ¬(0 ≤ index.indexAt p ∧ index.indexAt p < a.length)) :
    a.place? (index.getFloat p) = .error (.arrayIndex a.name (index.indexAt p) a.length) := if_neg h

/-- A uniform index that is in the array at one point is so at all of them. -/
theorem InBounds.of_mem_ones {mask : Mask} (h : a.InBounds index (index.points mask))
    (hp : p ∈ mask.ones) : 0 ≤ index.indexAt p ∧ index.indexAt p < a.length := by
  cases hd : index.detail with
  | uniform =>
    rw [Value.indexAt_of_uniform hd]
    exact h 0 (Value.zero_mem_points hd mask)
  | varying => exact h p (by rwa [Value.points_varying hd])

theorem exists_element (h : 0 ≤ index.indexAt p ∧ index.indexAt p < a.length) :
    ∃ v, a.elements[(index.indexAt p).toNat]? = some v := by
  have hlt : (index.indexAt p).toNat < a.elements.size := by
    unfold length at h
    omega
  exact ⟨_, Array.getElem?_eq_getElem hlt⟩

/-- A varying array, its elements declared for a grid of `n` points. -/
structure Varying (n : Nat) (a : VariableArray) : Prop where
  detail : a.detail = .varying
  elements : ∀ v ∈ a.elements, v.toValue.OfKind a.type .varying n

theorem Varying.of_related (h : a.Varying n) (ha : a.Related Variable.SameKind a') :
    a'.Varying n where
  detail := ha.detail.trans h.detail
  elements := ha.type ▸ (ha.ofKind h.elements).2

theorem Varying.length_eq (h : a.Varying n) (ha : a.Related Variable.SameKind a') :
    a'.length = a.length := (ha.ofKind h.elements).1

theorem Varying.storage_elements (h : a.Varying n) :
    ∀ v ∈ a.elements, v.data.storage = a.type.storage := fun v hv => by
  rw [(h.elements v hv).storage, (h.elements v hv).type_eq]

/-- What the points find in an array. -/
def read (a : VariableArray) (index : Value) (s : Storage) (p : Nat) : s.Elem :=
  (a.elements[(index.indexAt p).toNat]?).elim s.initial fun v => v.get s p

/-- The arrays before and after a value is stored: nothing has changed but that each of the points has
the value in the element of its index. -/
structure Stores (index source : Value) (s : Storage) (points : List Nat) (a a' : VariableArray) :
    Prop where
  sameKind : a.Related Variable.SameKind a'
  get (k : Nat) (v v' : Variable) : a.elements[k]? = some v → a'.elements[k]? = some v' →
    ∀ p, v'.get s p = if p ∈ points ∧ index.indexAt p = k then source.get s p else v.get s p

theorem Stores.nil (index source : Value) (s : Storage) (a : VariableArray) :
    a.Stores index source s [] a where
  sameKind := refl_of (Related Variable.SameKind) a
  get k v v' hv hv' p := by
    obtain rfl := Option.some.inj (hv.symm.trans hv')
    simp

theorem Stores.trans (h : a.Stores index source s points a')
    (h' : a'.Stores index source s points' a'') :
    a.Stores index source s (points ++ points') a'' where
  sameKind := trans_of (Related Variable.SameKind) h.sameKind h'.sameKind
  get k v v'' hv hv'' p := by
    have hrel := h.sameKind.elements k
    rw [hv] at hrel
    generalize hv' : a'.elements[k]? = x at hrel
    cases hrel with
    | some _ =>
      rw [h'.get k _ v'' hv' hv'' p, h.get k v _ hv hv' p]
      simp only [List.mem_append]
      split
      · rename_i hp
        rw [if_pos ⟨.inr hp.1, hp.2⟩]
      · rename_i hp
        congr 1
        simp only [eq_iff_iff]
        tauto

/-- One point stores its element. -/
theorem stores_point (ha : a.Varying n) (hs : a.type.storage = s) (hsource : source.data.storage = s)
    (hp : p < n) (hindex : 0 ≤ index.indexAt p) :
    a.Stores index source s [p] { a with
      elements := a.elements.modify (index.indexAt p).toNat (·.mapValue (·.copyPoint source p)) } where
  sameKind := by
    refine ⟨rfl, rfl, rfl, rfl, rfl, fun k => ?_⟩
    rw [Array.getElem?_modify]
    split
    · cases a.elements[k]? with
      | none => exact .none
      | some v => exact .some ⟨v.toValue.sameKind_set _ _ _, rfl, rfl, rfl⟩
    · exact refl_of (Option.Rel Variable.SameKind) _
  get k v v' hv hv' q := by
    rw [Array.getElem?_modify, hv] at hv'
    have hkind := ha.elements v (Array.mem_of_getElem? hv)
    have hstorage : v.data.storage = s := by rw [hkind.storage, hkind.type_eq, hs]
    have hsize : p < v.size := by
      have := hkind.size_varying hkind.detail_eq
      unfold Value.size
      omega
    split at hv'
    · rename_i hk
      obtain rfl := Option.some.inj hv'
      have hget := Value.get_copyPoint hkind.detail_eq hstorage hsource hsize q
      refine hget.trans ?_
      by_cases hq : q = p
      · subst hq
        have hk' : index.indexAt q = k := by omega
        simp [hk']
      · simp [hq]
    · rename_i hk
      obtain rfl := Option.some.inj hv'
      have hne : ¬(q ∈ [p] ∧ index.indexAt q = k) := by
        rintro ⟨hq, hk'⟩
        obtain rfl := List.mem_singleton.mp hq
        omega
      rw [if_neg hne]

/-- By induction on the points: each stores its element and leaves an array of the same kind. -/
theorem exists_scatter (ha : a.Varying n) (hs : a.type.storage = s)
    (hsource : source.data.storage = s) (hpoints : ∀ p ∈ points, p < n)
    (hindex : a.InBounds index points) :
    ∃ a', a.scatter index source points = (a', .ok ()) ∧ a.Stores index source s points a' := by
  induction points generalizing a with
  | nil => exact ⟨a, rfl, .nil index source s a⟩
  | cons p points ih =>
    obtain ⟨hp, hpoints⟩ := List.forall_mem_cons.mp hpoints
    obtain ⟨hbounds, hindex⟩ := List.forall_mem_cons.mp hindex
    have hone := stores_point ha hs hsource hp hbounds.1
    obtain ⟨a', hscatter, hrest⟩ := ih (ha.of_related hone.sameKind) hs hpoints
      (by simpa [InBounds, length] using hindex)
    refine ⟨a', ?_, hone.trans hrest⟩
    unfold scatter
    rw [place?_of_bounds hbounds]
    exact hscatter

theorem scatter_of_not_bounds (hindex : a.InBounds index points)
    (hp : ¬(0 ≤ index.indexAt p ∧ index.indexAt p < a.length)) :
    (a.scatter index source (points ++ p :: points')).2 =
      .error (.arrayIndex a.name (index.indexAt p) a.length) := by
  induction points generalizing a with
  | nil =>
    rw [List.nil_append, scatter, place?_of_not_bounds hp]
  | cons q points ih =>
    obtain ⟨hbounds, hindex⟩ := List.forall_mem_cons.mp hindex
    rw [List.cons_append, scatter, place?_of_bounds hbounds]
    dsimp only
    rw [ih (by simpa [InBounds, length] using hindex) (by simpa [length] using hp)]
    simp [length]

theorem gather_of_not_bounds (hindex : a.InBounds index points)
    (hp : ¬(0 ≤ index.indexAt p ∧ index.indexAt p < a.length)) :
    (a.gather index (points ++ p :: points') out).2 =
      .error (.arrayIndex a.name (index.indexAt p) a.length) := by
  induction points generalizing out with
  | nil => rw [List.nil_append, gather, place?_of_not_bounds hp]
  | cons q points ih =>
    obtain ⟨hbounds, hindex⟩ := List.forall_mem_cons.mp hindex
    rw [List.cons_append, gather, place?_of_bounds hbounds]
    exact ih hindex

/-- By induction on the points: each reads its element and leaves the others as they are. -/
theorem exists_gather (ha : ∀ e ∈ a.elements, e.data.storage = s) (hout : out.detail = .varying)
    (hs : out.data.storage = s) (hpoints : ∀ p ∈ points, p < out.size)
    (hindex : a.InBounds index points) :
    ∃ out', a.gather index points out = (out', .ok ()) ∧
      ∀ p, out'.get s p = if p ∈ points then a.read index s p else out.get s p := by
  induction points generalizing out with
  | nil => exact ⟨out, rfl, fun p => by simp⟩
  | cons q points ih =>
    obtain ⟨hq, hpoints⟩ := List.forall_mem_cons.mp hpoints
    obtain ⟨hbounds, hindex⟩ := List.forall_mem_cons.mp hindex
    obtain ⟨e, he⟩ := exists_element hbounds
    have hes := ha e (Array.mem_of_getElem? he)
    have hkind := out.sameKind_set e.data.storage q (e.get e.data.storage q)
    obtain ⟨out', hgather, hget⟩ := @ih (out.copyPoint e.toValue q) (hkind.detail.trans hout)
      (hkind.storage.trans hs) (fun p hp => (hpoints p hp).trans_eq hkind.size.symm) hindex
    refine ⟨out', ?_, fun p => ?_⟩
    · rw [gather, place?_of_bounds hbounds]
      simpa only [he, Option.map_some, Option.elim_some] using hgather
    · rw [hget, Value.get_copyPoint hout hs hes hq]
      by_cases hp : p ∈ points
      · simp [hp]
      · by_cases hpq : p = q
        · subst hpq
          simp [hp, read, he]
        · simp [hp, hpq]

/-- An index that is uniform selects one element for all points, to which the value is assigned. -/
theorem stores_assign {mask : Mask} {b : Nat} {e : Variable} (ha : a.Varying b)
    (hstorage : a.type.storage = source.type.storage) (hsource : source.IsShaped n) (hle : n ≤ b)
    (hmask : mask.size = n ∧ mask.Tidy) (hu : index.detail = .uniform) (hindex : 0 ≤ index.indexAt 0)
    (he : a.elements[(index.indexAt 0).toNat]? = some e) :
    a.Stores index source a.type.storage mask.ones { a with
      elements := a.elements.setIfInBounds (index.indexAt 0).toNat (e.after source mask) } where
  sameKind := related_set he (e.sameKind_after source mask)
  get k v v' hv hv' p := by
    have hp := Value.indexAt_of_uniform hu p
    by_cases hk : (index.indexAt 0).toNat = k
    · subst hk
      obtain rfl : e = v := Option.some.inj (he.symm.trans hv)
      obtain ⟨hlt, -⟩ := Array.getElem?_eq_some_iff.mp he
      rw [Array.getElem?_setIfInBounds_self_of_lt hlt] at hv'
      obtain rfl := Option.some.inj hv'
      have hpk : index.indexAt p = ((index.indexAt 0).toNat : Int) := by omega
      have hkind := ha.elements e (Array.mem_of_getElem? he)
      have hones : p ∈ mask.ones ↔ mask.get p = true := by
        rw [Mask.mem_ones_iff_bit, hmask.2.bit_eq]
      simp only [hones, hpk, and_true]
      exact Variable.get_after hkind hsource hstorage hle hmask.1.le p
    · rw [Array.getElem?_setIfInBounds_ne hk, hv] at hv'
      obtain rfl := Option.some.inj hv'
      rw [if_neg (by omega)]

/-- A point finds what it has stored. -/
theorem Stores.read_eq (h : a.Stores index source s points a') (hp : p ∈ points)
    (hbounds : 0 ≤ index.indexAt p ∧ index.indexAt p < a.length) :
    a'.read index s p = source.get s p := by
  obtain ⟨v, hv⟩ := exists_element hbounds
  have hrel := h.sameKind.elements (index.indexAt p).toNat
  rw [hv] at hrel
  unfold read
  generalize hv' : a'.elements[(index.indexAt p).toNat]? = x at hrel
  cases hrel with
  | some _ =>
    have hget := h.get _ _ _ hv hv' p
    rwa [if_pos ⟨hp, (Int.toNat_of_nonneg hbounds.1).symm⟩] at hget

end VariableArray

end ShadingMachine
