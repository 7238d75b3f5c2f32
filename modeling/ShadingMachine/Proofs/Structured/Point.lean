import ShadingMachine.Proofs.Frame.Idle
import ShadingMachine.Proofs.Grid.Projection

/-! What the variables of a session hold at a point. It is all that sessions compared at a point
have in common, and it stays as it was where the point is left alone. -/
namespace ShadingMachine

namespace GraphicsVariable

theorem exists_index_eq : ∀ k < 25, ∃ x ∈ all, x.index = k := by decide

end GraphicsVariable

theorem GraphicsState.ext_get {g g' : GraphicsState} (h : ∀ x, g.get x = g'.get x) : g = g' := by
  obtain ⟨values⟩ := g
  obtain ⟨values'⟩ := g'
  congr 1
  ext1 k hk
  obtain ⟨x, -, rfl⟩ := GraphicsVariable.exists_index_eq k hk
  exact h x

/-- What the variables hold at a point: values of one element. -/
structure Point where
  locals : Locals
  graphics : GraphicsState

/-- The variables at a point. -/
def Session.point (s : Session Grid) (i : Nat) : Point where
  locals := s.machine.locals.map (·.atPoint i)
  graphics := .ofFn fun x => (s.host.env.graphics.get x).atPoint i

theorem Array.map_eq_of_rel {α β : Type} {R : α → β → Prop} {f : α → β} {as : Array α}
    {bs : Array β} (h : ∀ k : Nat, Option.Rel R as[k]? bs[k]?) (hf : ∀ a b, R a b → f a = b) :
    as.map f = bs := by
  refine Array.ext_getElem? fun k => ?_
  rw [Array.getElem?_map]
  have hk := h k
  generalize as[k]? = x at hk
  generalize bs[k]? = y at hk
  cases hk with
  | none => rfl
  | some hab => exact congrArg some (hf _ _ hab)

/-! A session of a point that has the same there holds just that. -/

theorem Value.SamePoint.atPoint_eq {n i : Nat} {v w : Value} (h : v.SamePoint n i true w) :
    v.atPoint i = w := by
  have hw1 : w.data.size = 1 := h.size_one
  obtain ⟨vt, vd, d⟩ := v
  obtain ⟨wt, wd, e⟩ := w
  obtain rfl : vt = wt := h.type
  obtain rfl : vd = wd := h.detail
  cases vd with
  | uniform => exact congrArg (Value.mk vt .uniform) (h.uniform rfl)
  | varying =>
    refine congrArg (Value.mk vt .varying) (Data.ext_of_size_one h.storage rfl hw1 ?_)
    simpa [Data.get_mk] using h.varying rfl rfl

theorem Variable.ext_toValue {v w : Variable} (h : v.toValue = w.toValue) (hname : v.name = w.name)
    (hparam : v.param = w.param) (houtput : v.output = w.output) : v = w := by
  cases v
  cases w
  simp_all

theorem Variable.SamePoint.atPoint_eq {n i : Nat} {v w : Variable} (h : v.SamePoint n i w) :
    v.atPoint i = w := ext_toValue h.value.atPoint_eq h.name h.param h.output

theorem Local.SamePoint.atPoint_eq {n i : Nat} {l l' : Local} (h : l.SamePoint n i l') :
    l.atPoint i = l' := by
  cases h with
  | scalar hv => exact congrArg Local.scalar hv.atPoint_eq
  | @array a b ha =>
    have helements := Array.map_eq_of_rel ha.elements fun _ _ => Variable.SamePoint.atPoint_eq
    have hb : (⟨a.name, a.type, a.detail, a.param, a.output, b.elements⟩ : VariableArray) = b := by
      rw [ha.name, ha.type, ha.detail, ha.param, ha.output]
    refine congrArg Local.array (Eq.trans ?_ hb)
    exact congrArg _ helements

theorem Session.AtPoint.point_eq {n i : Nat} {hand hand' : List Slot} {s t : Session Grid}
    (h : AtPoint n i hand hand' s t) : s.point i = ⟨t.machine.locals, t.host.env.graphics⟩ := by
  refine congrArg₂ Point.mk (Array.map_eq_of_rel h.locals fun _ _ => Local.SamePoint.atPoint_eq)
    (GraphicsState.ext_get fun x => ?_)
  rw [GraphicsState.get_ofFn]
  exact (h.graphics x).atPoint_eq

/-! A point that is left alone holds what it held. -/

theorem Value.KeepsAt.atPoint_eq {n i : Nat} {v w : Value} (h : v.KeepsAt (fun _ => True) i w)
    (hv : v.IsSized n) : w.atPoint i = v.atPoint i := by
  have hget := h.get trivial
  have hsize : w.data.size = v.data.size := h.size
  obtain ⟨vt, vd, d⟩ := v
  obtain ⟨wt, wd, e⟩ := w
  obtain rfl : wt = vt := h.type
  obtain rfl : wd = vd := h.detail
  have hstorage : e.storage = d.storage := h.storage
  cases wd with
  | uniform =>
    have hd : d.size = 1 := hv
    refine congrArg (Value.mk wt .uniform) (Data.ext_of_size_one hstorage (hsize.trans hd) hd ?_)
    exact hget e.storage
  | varying =>
    refine congrArg (Value.mk wt .varying) (Data.ext_of_size_one hstorage rfl rfl ?_)
    obtain ⟨s, xs⟩ := e
    obtain ⟨s', ys⟩ := d
    obtain rfl : s = s' := hstorage
    simpa [Data.get_mk, Value.get, Value.place, Value.isVarying, Detail.isVarying] using hget s

theorem Variable.KeepsAt.atPoint_eq {n i : Nat} {v w : Variable} (h : v.UnchangedAt i w)
    (hv : v.IsSized n) : w.atPoint i = v.atPoint i :=
  ext_toValue (h.value.atPoint_eq hv) h.name h.param h.output

theorem Local.Related.atPoint_eq {n i : Nat} {l l' : Local}
    (h : l.Related (Variable.UnchangedAt i) l') (hl : l.IsSized n) :
    l'.atPoint i = l.atPoint i := by
  cases h with
  | scalar hv => exact congrArg Local.scalar (hv.atPoint_eq hl)
  | @array a b ha =>
    have helements : b.elements.map (·.atPoint i) = a.elements.map (·.atPoint i) := by
      refine Array.ext_getElem? fun k => ?_
      rw [Array.getElem?_map, Array.getElem?_map]
      have hk := ha.elements k
      generalize ha' : a.elements[k]? = x at hk
      generalize b.elements[k]? = y at hk
      cases hk with
      | none => rfl
      | some hvw => exact congrArg some (hvw.atPoint_eq (hl _ (Array.mem_of_getElem? ha')))
    have hb : (⟨b.name, b.type, b.detail, b.param, b.output, a.elements.map (·.atPoint i)⟩ :
        VariableArray) = a.mapElements (·.atPoint i) := by
      rw [ha.name, ha.type, ha.detail, ha.param, ha.output]
      rfl
    refine congrArg Local.array (Eq.trans ?_ hb)
    exact congrArg _ helements

theorem Session.Related.point_eq {n i : Nat} {s t : Session Grid}
    (h : s.Related (Variable.UnchangedAt i) t) (hs : s.IsSized n) : t.point i = s.point i := by
  refine congrArg₂ Point.mk (Array.ext_getElem? fun k => ?_) (GraphicsState.ext_get fun x => ?_)
  · rw [Array.getElem?_map, Array.getElem?_map]
    have hk := h.locals k
    generalize hl : s.machine.locals[k]? = x at hk
    generalize t.machine.locals[k]? = y at hk
    cases hk with
    | none => rfl
    | some hll => exact congrArg some (hll.atPoint_eq (hs.locals _ (Array.mem_of_getElem? hl)))
  · rw [GraphicsState.get_ofFn, GraphicsState.get_ofFn]
    exact (h.graphics x).atPoint_eq (hs.graphics x)

/-! Variables of the same kind are of the same size, and are found under the same names. -/

theorem Value.SameKind.isSized {n : Nat} {v w : Value} (h : v.SameKind w) (hv : v.IsSized n) :
    w.IsSized n := by
  unfold IsSized
  rw [h.size, h.detail]
  exact hv

theorem Local.Related.isSized {n : Nat} {l l' : Local} (h : l.Related Variable.SameKind l')
    (hl : l.IsSized n) : l'.IsSized n := by
  cases h with
  | scalar hv => exact hv.value.isSized hl
  | @array a b ha =>
    intro w hw
    obtain ⟨k, hk⟩ := Array.mem_iff_getElem?.mp hw
    have hrel := ha.elements k
    rw [hk] at hrel
    generalize ha' : a.elements[k]? = x at hrel
    cases hrel with
    | some hvw => exact hvw.value.isSized (hl _ (Array.mem_of_getElem? ha'))

theorem Locals.Related.isSized {n : Nat} {ls ls' : Locals} (h : ls.Related Variable.SameKind ls')
    (hls : ∀ l ∈ ls, l.IsSized n) : ∀ l ∈ ls', l.IsSized n := by
  intro l hl
  obtain ⟨k, hk⟩ := Array.mem_iff_getElem?.mp hl
  have hrel := h k
  rw [hk] at hrel
  generalize hk' : ls[k]? = x at hrel
  cases hrel with
  | some hll => exact hll.isSized (hls _ (Array.mem_of_getElem? hk'))

theorem Session.scalar?_declared {s : Session Grid} {k : Nat} {v : Variable} :
    s.scalar? (.declared k) = some v ↔ s.machine.locals.scalar? k = .ok v := by
  show (s.machine.locals.scalar? k).toOption = some v ↔ _
  cases s.machine.locals.scalar? k <;> simp [Except.toOption]

theorem Session.Related.scalar? {R : Variable → Variable → Prop} {s t : Session Grid}
    (h : s.Related R t) {r : VariableRef} {v : Variable} (hv : s.scalar? r = some v) :
    ∃ w, t.scalar? r = some w ∧ R v w := by
  cases r with
  | declared k =>
    have hk := h.locals k
    rw [Exec.getElem?_of_scalar? (scalar?_declared.mp hv)] at hk
    generalize hk' : t.machine.locals[k]? = x at hk
    cases hk with
    | some hll =>
      cases hll with
      | @scalar _ w hvw =>
        refine ⟨w, scalar?_declared.mpr ?_, hvw⟩
        simp [Locals.scalar?, hk', Local.scalar?]
  | graphics x =>
    cases hv
    exact ⟨_, rfl, h.graphics x⟩

end ShadingMachine
