import ShadingMachine.Machine.Access
import ShadingMachine.Proofs.Storage.Locals

/-! The first points of the locals. A varying local is cut to its first point, which is all that is
read of it and all that is written to it where no other point runs. -/
namespace ShadingMachine

namespace Data

/-- The first element, or an initial one if there is none. -/
def first (d : Data) : d.storage.Elem := d.values[0]?.getD d.storage.initial

theorem resize_one (d : Data) : d.resize 1 = ⟨d.storage, #[d.first]⟩ := by
  obtain ⟨storage, xs⟩ := d
  refine congrArg (Data.mk storage) ?_
  by_cases hx : xs.size = 0
  · obtain rfl := Array.eq_empty_of_size_eq_zero hx
    rfl
  · have hpos : 0 < xs.size := Nat.pos_of_ne_zero hx
    have hnone : 1 - xs.size = 0 := by omega
    simp only [first, hnone, Array.replicate_zero, Array.append_empty,
      Array.getElem?_eq_getElem hpos, Option.getD_some]
    refine Array.ext (by rw [Array.size_extract]; exact Nat.min_eq_left hpos) fun k _ hk => ?_
    obtain rfl : k = 0 := Nat.lt_one_iff.mp hk
    exact Array.getElem_extract _

theorem resize_of_size (d : Data) {n : Nat} (h : d.size = n) : d.resize n = d := by
  subst h
  refine congrArg (Data.mk d.storage) (Array.ext_getElem? fun j => ?_)
  unfold size
  grind

theorem resize_replicate {s : Storage} (x : s.Elem) {k : Nat} (hk : 0 < k) (n : Nat) :
    (Data.mk s (Array.replicate k x)).resize n = ⟨s, Array.replicate n x⟩ := by
  unfold resize
  refine congrArg (Data.mk s) (Array.ext_getElem? fun j => ?_)
  simp only [Array.size_replicate, Array.getElem?_replicate, hk, if_true, Option.getD_some]
  grind

theorem resize_one_resize (d : Data) (n : Nat) :
    (d.resize 1).resize n = ⟨d.storage, Array.replicate n d.first⟩ := by
  rw [resize_one]
  exact resize_replicate d.first Nat.one_pos n

theorem resize_resize_one (d : Data) {n : Nat} (hn : 0 < n) :
    (d.resize n).resize 1 = d.resize 1 := by
  obtain ⟨storage, xs⟩ := d
  have hfirst : (xs.extract 0 n ++
      Array.replicate (n - xs.size) (xs[0]?.getD storage.initial))[0]?.getD storage.initial =
      xs[0]?.getD storage.initial := by
    by_cases hx : xs.size = 0
    · simp [Array.eq_empty_of_size_eq_zero hx, hn]
    · have hpos : 0 < (xs.extract 0 n).size := by
        rw [Array.size_extract]
        omega
      rw [Array.getElem?_append_left hpos, Array.getElem?_extract, if_pos (by omega)]
  rw [resize_one, resize_one]
  exact congrArg (fun x => Data.mk storage #[x]) hfirst

/-- New points copy the first one, whatever number of points there was between. -/
theorem resize_one_resize_resize (d : Data) {k : Nat} (hk : 0 < k) (n : Nat) :
    ((d.resize 1).resize k).resize n = (d.resize 1).resize n := by
  rw [resize_one_resize, resize_one_resize, resize_replicate d.first hk]

theorem get_resize_one (d : Data) (s : Storage) : (d.resize 1).get s 0 = d.get s 0 := by
  rw [resize_one]
  by_cases hs : d.storage = s
  · subst hs
    unfold get
    rw [as?_self, show d.as? d.storage = some d.values from as?_self ..]
    rfl
  · simp [get, as?, hs]

variable {d : Data}

theorem resize_one_set (hd : 0 < d.size) (s : Storage) (x : s.Elem) :
    (d.resize 1).set s 0 x = (d.set s 0 x).resize 1 := by
  obtain ⟨storage, xs⟩ := d
  have hx : 0 < xs.size := hd
  by_cases hs : storage = s
  · subst hs
    have hset : (Data.mk storage xs).set storage 0 x = ⟨storage, xs.setIfInBounds 0 x⟩ := by
      simp [set]
    rw [hset, resize_one, resize_one]
    simp [set, first, hx]
  · have hset (ys : Array storage.Elem) : (Data.mk storage ys).set s 0 x = ⟨storage, ys⟩ := by
      simp [set, as?, hs]
    rw [hset, resize_one, hset]

theorem resize_one_copyWhere (hd : 0 < d.size) (source : Data) (active : Nat → Bool) :
    (d.resize 1).copyWhere source active = (d.copyWhere source active).resize 1 := by
  obtain ⟨storage, xs⟩ := d
  have hx : 0 < xs.size := hd
  rw [resize_one]
  cases hs : source.as? storage with
  | none =>
    have hcopy (zs : Array storage.Elem) :
        (Data.mk storage zs).copyWhere source active = ⟨storage, zs⟩ := by
      simp [copyWhere, hs]
    rw [hcopy, hcopy, resize_one]
  | some ys =>
    have hcopy (zs : Array storage.Elem) : (Data.mk storage zs).copyWhere source active =
        ⟨storage, zs.mapIdx fun i old =>
          if active i then (if ys.size = 1 then ys[0]? else ys[i]?).getD old else old⟩ := by
      simp [copyWhere, hs]
    rw [hcopy, hcopy, resize_one]
    simp [first, hx]

end Data

namespace Value

variable (v : Value)

theorem sizeTo_sizeTo_one (n : Nat) : (v.sizeTo n).sizeTo 1 = v.sizeTo 1 := by
  obtain ⟨type, detail, d⟩ := v
  cases detail with
  | uniform => rfl
  | varying => exact congrArg (Value.mk type .varying) (d.resize_resize_one (by omega))

theorem copyPoint_sizeTo_one (out : Value) : out.copyPoint (v.sizeTo 1) 0 = out.copyPoint v 0 := by
  obtain ⟨type, detail, d⟩ := v
  cases detail with
  | uniform => rfl
  | varying => exact congrArg (out.set d.storage 0) (d.get_resize_one d.storage)

variable {v} {n : Nat} (h : v.IsShaped n)
include h

theorem IsShaped.size_pos : 0 < v.data.size := by
  have hsize : v.data.size = v.detail.length n := h.size
  have hlength : 0 < v.detail.length n := by
    cases v.detail with
    | uniform => exact Nat.one_pos
    | varying => exact Nat.lt_of_lt_of_le Nat.one_pos (Nat.le_max_right n 1)
  omega

/-- Where the initial segment has run, the locals are sized to any grid like their first points. -/
theorem IsShaped.spreadFirst_sizeTo (k : Nat) : v.spreadFirst.sizeTo k = (v.sizeTo 1).sizeTo k := by
  have hpos := h.size_pos
  obtain ⟨type, detail, d⟩ := v
  cases detail with
  | uniform => rfl
  | varying => exact congrArg (Value.mk type .varying) (d.resize_one_resize_resize hpos _)

theorem IsShaped.spreadFirst_eq : v.spreadFirst = (v.sizeTo 1).sizeTo n := by
  have hsize := h.size
  obtain ⟨type, detail, d⟩ := v
  cases detail with
  | uniform => rfl
  | varying => exact congrArg (fun k => Value.mk type .varying ((d.resize 1).resize k)) hsize

theorem IsShaped.sizeTo_one_copyWhere (source : Data) (active : Nat → Bool) :
    { v.sizeTo 1 with data := (v.sizeTo 1).data.copyWhere source active } =
      { v with data := v.data.copyWhere source active }.sizeTo 1 := by
  have hpos := h.size_pos
  obtain ⟨type, detail, d⟩ := v
  cases detail with
  | uniform => rfl
  | varying => exact congrArg (Value.mk type .varying) (Data.resize_one_copyWhere hpos source active)

theorem IsShaped.sizeTo_one_copyPoint (source : Value) :
    (v.sizeTo 1).copyPoint source 0 = (v.copyPoint source 0).sizeTo 1 := by
  have hpos := h.size_pos
  obtain ⟨type, detail, d⟩ := v
  cases detail with
  | uniform => rfl
  | varying => exact congrArg (Value.mk type .varying) (Data.resize_one_set hpos _ _)

end Value

namespace Variable

theorem sizeTo_sizeTo_one (v : Variable) (n : Nat) : (v.sizeTo n).sizeTo 1 = v.sizeTo 1 :=
   congrArg (fun w : Value => { v with toValue := w }) (v.toValue.sizeTo_sizeTo_one n)

/-- Assigning to the first point alone. -/
theorem assign_sizeTo_one {v : Variable} {n : Nat} (h : v.toValue.IsShaped n) (source : Value)
    (mask : Mask) : (v.sizeTo 1).assign source mask = (v.assign source mask).map (·.sizeTo 1) := by
  have htype : (v.sizeTo 1).type = v.type := Value.type_sizeTo v.toValue 1
  have hdetail : (v.sizeTo 1).isVarying = v.isVarying :=
    congrArg Detail.isVarying (Value.detail_sizeTo v.toValue 1)
  have hname : (v.sizeTo 1).name = v.name := rfl
  unfold assign
  rw [htype, hdetail, hname]
  split
  · rfl
  · split
    · rfl
    · exact congrArg (fun w : Value => Except.ok { v with toValue := w })
        (h.sizeTo_one_copyWhere source.data _)

theorem sizeTo_one_copyPoint {v : Variable} {n : Nat} (h : v.toValue.IsShaped n) (source : Value) :
    (v.mapValue (·.copyPoint source 0)).sizeTo 1 = (v.sizeTo 1).mapValue (·.copyPoint source 0) :=
  congrArg (fun w : Value => { v with toValue := w }) (h.sizeTo_one_copyPoint source).symm

end Variable

namespace VariableArray

variable {n : Nat} {index source : Value} {points : List Nat}

theorem type_mapElements (a : VariableArray) (f : Variable → Variable) :
    (a.mapElements f).type = a.type := rfl

theorem detail_mapElements (a : VariableArray) (f : Variable → Variable) :
    (a.mapElements f).detail = a.detail := rfl

theorem name_mapElements (a : VariableArray) (f : Variable → Variable) :
    (a.mapElements f).name = a.name := rfl

theorem getElem?_mapElements (a : VariableArray) (f : Variable → Variable) (j : Nat) :
    (a.mapElements f).elements[j]? = a.elements[j]?.map f := Array.getElem?_map ..

theorem mapElements_setIfInBounds (a : VariableArray) (f : Variable → Variable) (j : Nat)
    (v : Variable) : ({ a with elements := a.elements.setIfInBounds j v } : VariableArray).mapElements f =
      { a.mapElements f with elements := (a.mapElements f).elements.setIfInBounds j (f v) } :=
  congrArg (fun elements => ({ a with elements } : VariableArray)) (Array.map_setIfInBounds ..)

theorem place?_mapElements (a : VariableArray) (f : Variable → Variable) (x : Float32) :
    (a.mapElements f).place? x = a.place? x := by
  unfold place?
  rw [length_mapElements]
  rfl

/-- At the first point only the first points of the elements are read. -/
theorem gather_sizeTo_one (a : VariableArray) (hpoints : ∀ i ∈ points, i = 0) (out : Value) :
    (a.mapElements (·.sizeTo 1)).gather index points out = a.gather index points out := by
  induction points generalizing out with
  | nil => rfl
  | cons i points ih =>
    obtain rfl := hpoints i List.mem_cons_self
    unfold gather
    rw [place?_mapElements]
    cases a.place? (index.getFloat 0) with
    | error e => rfl
    | ok k =>
      have hread : ((a.mapElements (·.sizeTo 1)).elements[k]?.map (·.toValue)).elim out
          (out.copyPoint · 0) = (a.elements[k]?.map (·.toValue)).elim out (out.copyPoint · 0) := by
        simp only [mapElements, Array.getElem?_map]
        cases a.elements[k]? with
        | none => rfl
        | some v => exact v.toValue.copyPoint_sizeTo_one out
      dsimp only
      rw [ih fun i hi => hpoints i (List.mem_cons_of_mem _ hi), hread]

/-- At the first point only the first points of the elements are written. -/
theorem scatter_sizeTo_one {a : VariableArray} (ha : ∀ v ∈ a.elements, v.toValue.IsShaped n)
    (hpoints : ∀ i ∈ points, i = 0) :
    (a.mapElements (·.sizeTo 1)).scatter index source points =
      ((a.scatter index source points).1.mapElements (·.sizeTo 1),
        (a.scatter index source points).2) := by
  induction points generalizing a with
  | nil => rfl
  | cons i points ih =>
    obtain rfl := hpoints i List.mem_cons_self
    unfold scatter
    rw [place?_mapElements]
    cases a.place? (index.getFloat 0) with
    | error e => rfl
    | ok k =>
      dsimp only
      let b : VariableArray := { a with
        elements := a.elements.modify k (·.mapValue (·.copyPoint source 0)) }
      have hb : ∀ v ∈ b.elements, v.toValue.IsShaped n := by
        intro v hv
        obtain ⟨j, hj⟩ := Array.getElem?_of_mem hv
        simp only [b, Array.getElem?_modify] at hj
        split at hj
        · obtain ⟨w, hw, rfl⟩ := Option.map_eq_some_iff.mp hj
          have hkept : w.toValue.KeepsAt (fun _ => False) 0 (w.toValue.copyPoint source 0) :=
            Value.keepsAt_copyPoint False.elim source
          exact (ha w (Array.mem_of_getElem? hw)).sameKind hkept.toSameKind
        · exact ha v (Array.mem_of_getElem? hj)
      have hwrite : b.elements.map (·.sizeTo 1) = (a.elements.map (·.sizeTo 1)).modify k
          (·.mapValue (·.copyPoint source 0)) := by
        refine Array.ext_getElem? fun j => ?_
        simp only [b, Array.getElem?_map, Array.getElem?_modify]
        split
        · cases hj : a.elements[j]? with
          | none => rfl
          | some v => exact congrArg some (Variable.sizeTo_one_copyPoint
            (ha v (Array.mem_of_getElem? hj)) source)
        · rfl
      rw [← ih hb fun i hi => hpoints i (List.mem_cons_of_mem _ hi)]
      exact congrArg (fun elements => scatter { a with elements } index source points) hwrite.symm

end VariableArray

/-- The scalar, or the elements of the array. -/
def Local.variables : Local → Array Variable
  | scalar v => #[v]
  | array a => a.elements

namespace Locals

variable {ls : Locals} {k : Nat}

/-- Every varying value has the same element at all of `n` points. -/
def Even (n : Nat) (ls : Locals) : Prop :=
  ∀ l ∈ ls, ∀ v ∈ l.variables, v.detail = .varying →
    v.data.values = Array.replicate n v.data.first

theorem scalar?_sizeTo (ls : Locals) (n k : Nat) :
    (ls.sizeTo n).scalar? k = (ls.scalar? k).map (·.sizeTo n) := by
  unfold scalar? sizeTo
  rw [Array.getElem?_map]
  cases ls[k]? with
  | none => rfl
  | some l => cases l <;> rfl

theorem array?_sizeTo (ls : Locals) (n k : Nat) :
    (ls.sizeTo n).array? k = (ls.array? k).map (·.mapElements (·.sizeTo n)) := by
  unfold array? sizeTo
  rw [Array.getElem?_map]
  cases ls[k]? with
  | none => rfl
  | some l => cases l <;> rfl

theorem sizeTo_setIfInBounds (ls : Locals) (n k : Nat) (l : Local) :
    Locals.sizeTo (ls.setIfInBounds k l) n =
      (ls.sizeTo n).setIfInBounds k (l.mapVariables (·.sizeTo n)) := by
  unfold sizeTo
  rw [Array.map_setIfInBounds]

/-- Changes of variables that come to the same on those that the locals can be. -/
theorem Declared.map_congr {n : Nat} {ds : Array Declaration} (h : ls.Declared n ds)
    {f g : Variable → Variable} (hfg : ∀ v : Variable, v.toValue.IsShaped n → f v = g v) :
    ls.map (Local.mapVariables f) = ls.map (Local.mapVariables g) := by
  refine Array.map_congr_left fun l hl => ?_
  obtain ⟨k, hk⟩ := Array.getElem?_of_mem hl
  obtain ⟨d, -, hd⟩ := h.get hk
  cases hd with
  | scalar _ hv => exact congrArg Local.scalar (hfg _ hv.toIsShaped)
  | @array a _ _ _ ha =>
    have helements : a.elements.map f = a.elements.map g :=
      Array.map_congr_left fun v hv => hfg v (ha v hv).toIsShaped
    exact congrArg (fun elements => Local.array { a with elements }) helements

theorem map_mapVariables (ls : Locals) (f g : Variable → Variable) :
    (ls.map (Local.mapVariables f)).map (Local.mapVariables g) =
      ls.map (Local.mapVariables fun v => g (f v)) := by
  rw [Array.map_map]
  refine Array.map_congr_left fun l _ => ?_
  cases l with
  | scalar v => rfl
  | array a =>
    exact congrArg (fun elements => Local.array { a with elements }) (Array.map_map ..)

/-- One point spreads to all. -/
theorem even_sizeTo (ls : Locals) {n : Nat} (hn : 0 < n) : ((ls.sizeTo 1).sizeTo n).Even n := by
  have hvalue (v : Value) (hv : ((v.sizeTo 1).sizeTo n).detail = .varying) :
      ((v.sizeTo 1).sizeTo n).data.values =
        Array.replicate n ((v.sizeTo 1).sizeTo n).data.first := by
    rw [Value.detail_sizeTo, Value.detail_sizeTo] at hv
    obtain ⟨type, detail, d⟩ := v
    obtain rfl : detail = .varying := hv
    show ((d.resize 1).resize (max n 1)).values =
      Array.replicate n ((d.resize 1).resize (max n 1)).first
    rw [max_eq_left hn, Data.resize_one_resize]
    unfold Data.first
    simp [hn]
  intro l hl v hv hvarying
  unfold sizeTo at hl
  rw [map_mapVariables] at hl
  obtain ⟨l', -, rfl⟩ := Array.mem_map.mp hl
  cases l' with
  | scalar w =>
    obtain rfl := Array.mem_singleton.mp hv
    exact hvalue w.toValue hvarying
  | array a =>
    obtain ⟨w, -, rfl⟩ := Array.mem_map.mp hv
    exact hvalue w.toValue hvarying

theorem sizeTo_sizeTo_one (ls : Locals) (n : Nat) : (ls.sizeTo n).sizeTo 1 = ls.sizeTo 1 := by
  unfold sizeTo
  rw [map_mapVariables]
  simp only [Variable.sizeTo_sizeTo_one]

variable {n : Nat} {ds : Array Declaration} (h : ls.Declared n ds)
include h

theorem Declared.spreadFirst_sizeTo (k : Nat) : ls.spreadFirst.sizeTo k = (ls.sizeTo 1).sizeTo k := by
  unfold spreadFirst sizeTo
  rw [map_mapVariables, map_mapVariables]
  exact h.map_congr fun v hv => congrArg (fun w : Value => { v with toValue := w })
    (hv.spreadFirst_sizeTo k)

theorem Declared.spreadFirst_eq : ls.spreadFirst = (ls.sizeTo 1).sizeTo n := by
  unfold spreadFirst sizeTo
  rw [map_mapVariables]
  exact h.map_congr fun v hv => congrArg (fun w : Value => { v with toValue := w }) hv.spreadFirst_eq

end Locals

end ShadingMachine
