import ShadingMachine.Proofs.Lockstep.Answers
import ShadingMachine.Scene.Grid

/-! Derivatives on a grid. They are taken of a point and its neighbours, so two ways to compute them are
alike if the operands agree at the points that are reached from the running ones, along the
directions of the derivative. -/
namespace ShadingMachine

/-- The directions along which a derivative is taken. -/
def DerivativeKind.directions : DerivativeKind → List Direction
  | alongU => [.alongU]
  | alongV => [.alongV]
  | byValue => [.alongU, .alongV]

namespace Resolution

/-- The points that differences at points are taken of, along some directions. -/
def reach (r : Resolution) (ds : List Direction) (points : List Nat) : List Nat :=
  points.flatMap fun i => ds.flatMap fun d => (r.samples? d i).elim [] fun p => [p.1, p.2]

variable {r : Resolution} {ds : List Direction} {points : List Nat}

theorem mem_reach {d : Direction} (hd : d ∈ ds) {i : Nat} (hi : i ∈ points) {p : Nat × Nat}
    (hp : r.samples? d i = some p) : p.1 ∈ r.reach ds points ∧ p.2 ∈ r.reach ds points := by
  have hmem : ∀ k ∈ [p.1, p.2], k ∈ r.reach ds points := fun k hk =>
    List.mem_flatMap.mpr ⟨i, hi, List.mem_flatMap.mpr ⟨d, hd, by rw [hp]; exact hk⟩⟩
  exact ⟨hmem _ (by simp), hmem _ (by simp)⟩

variable {α : Type} {field field' : Array α} (h : ∀ k ∈ r.reach ds points, field[k]? = field'[k]?)
include h

theorem getElem?_map_reach {β : Type} (f : α → β) :
    ∀ k ∈ r.reach ds points, (field.map f)[k]? = (field'.map f)[k]? := fun k hk => by
  rw [Array.getElem?_map, Array.getElem?_map, h k hk]

theorem difference_congr [Scalar α] {d : Direction} (hd : d ∈ ds) {i : Nat} (hi : i ∈ points) :
    r.difference d field i = r.difference d field' i := by
  unfold difference
  cases hp : r.samples? d i with
  | none => rfl
  | some p =>
    obtain ⟨h₁, h₂⟩ := mem_reach hd hi hp
    dsimp only
    rw [h _ h₁, h _ h₂]

theorem quotient_congr [Scalar α] {divisor divisor' : Array α}
    (hdivisor : ∀ k ∈ r.reach ds points, divisor[k]? = divisor'[k]?) (hu : .alongU ∈ ds)
    (hv : .alongV ∈ ds) {i : Nat} (hi : i ∈ points) :
    r.quotient field divisor i = r.quotient field' divisor' i := by
  unfold quotient
  simp only [difference_congr h hu hi, difference_congr h hv hi, difference_congr hdivisor hu hi,
    difference_congr hdivisor hv hi]

end Resolution

open Resolution

namespace Value

variable {V : Value → Prop} {v w : Value} {points : List Nat}

/-- The elements of varying values that agree, of one size. -/
theorem Agrees.getElem?_values (h : v.Agrees Eq (· ∈ points) w) (hv : v.detail = .varying)
    (hsize : v.size = w.size) : ∃ ys : Array v.data.storage.Elem, w.data = ⟨v.data.storage, ys⟩ ∧
      ∀ k ∈ points, v.data.values[k]? = ys[k]? := by
  have hw : w.detail = .varying := h.detail ▸ hv
  obtain ⟨type, detail, s, xs⟩ := v
  obtain ⟨type', detail', s', ys⟩ := w
  obtain rfl : s = s' := h.storage
  refine ⟨ys, rfl, fun k hk => Data.getElem?_eq_of_getD_eq hsize (a := s.initial) ?_⟩
  have hget := h.get k hk s
  unfold Value.get at hget
  rw [place_varying hv, place_varying hw] at hget
  simpa only [Data.get_mk] using hget

/-- The elements of a varying value that derivatives are taken of. -/
theorem Agrees.field? (h : v.Agrees Eq (· ∈ points) w)
    (hsize : v.detail = .varying → v.size = w.size) (s : Storage) :
    Option.Rel (fun xs ys => ∀ k ∈ points, xs[k]? = ys[k]?) (Grid.field? v s)
      (Grid.field? w s) := by
  unfold Grid.field?
  have hvarying : w.isVarying = v.isVarying := congrArg Detail.isVarying h.detail.symm
  rw [hvarying]
  cases hd : v.detail with
  | uniform =>
    rw [if_neg (by simp [isVarying, hd, Detail.isVarying]),
      if_neg (by simp [isVarying, hd, Detail.isVarying])]
    exact .none
  | varying =>
    rw [if_pos (by simp [isVarying, hd, Detail.isVarying]),
      if_pos (by simp [isVarying, hd, Detail.isVarying])]
    obtain ⟨ys, hw, hget⟩ := h.getElem?_values hd (hsize hd)
    rw [hw]
    obtain ⟨type, detail, s', xs⟩ := v
    by_cases hs : s' = s
    · subst hs
      rw [Data.as?_self, Data.as?_self]
      exact .some hget
    · simp only [Data.as?, dif_neg hs]
      exact .none

/-- The elements where there are some, written one after the other. -/
def setAll (s : Storage) (f : Nat → Option s.Elem) (points : List Nat) (out : Value) : Value :=
  points.foldl (fun out i => (f i).elim out (out.set s i)) out

theorem sameKind_setAll (s : Storage) (f : Nat → Option s.Elem) (points : List Nat) (out : Value) :
    out.SameKind (out.setAll s f points) := by
  induction points generalizing out with
  | nil => exact .refl out
  | cons i points ih =>
    have hstep : out.SameKind ((f i).elim out (out.set s i)) := by
      cases f i with
      | none => exact .refl out
      | some x => exact out.sameKind_set s i x
    exact hstep.trans (ih _)

theorem Agrees.setAll {P : Nat → Prop} (h : v.Agrees Eq P w) (hsize : v.size = w.size) (s : Storage)
    {f g : Nat → Option s.Elem} (hfg : ∀ i ∈ points, f i = g i) :
    (v.setAll s f points).Agrees Eq P (w.setAll s g points) := by
  induction points generalizing v w with
  | nil => exact h
  | cons i points ih =>
    obtain ⟨hi, his⟩ := List.forall_mem_cons.mp hfg
    unfold Value.setAll at ih ⊢
    rw [List.foldl_cons, List.foldl_cons, hi]
    cases g i with
    | none => exact ih h hsize his
    | some x =>
      have hv := v.sameKind_set s i x
      have hw := w.sameKind_set s i x
      exact ih (h.set_imp hsize i s x) (hv.size.trans (hsize.trans hw.size.symm)) his

end Value

namespace Grid

variable {r : Resolution} {kind : DerivativeKind} {points : List Nat}

/-- Divisors that are the same where they are reached. -/
abbrev SameField (r : Resolution) (ds : List Direction) (points : List Nat)
    (x y : Option (Array Float32)) : Prop :=
  Option.Rel (fun xs ys => ∀ k ∈ r.reach ds points, xs[k]? = ys[k]?) x y

theorem slope?_congr {divisor? divisor?' : Option (Array Float32)}
    (hdivisor : SameField r kind.directions points divisor? divisor?') {xs ys : Array Float32}
    (h : ∀ k ∈ r.reach kind.directions points, xs[k]? = ys[k]?) {i : Nat} (hi : i ∈ points) :
    slope? r kind divisor? xs i = slope? r kind divisor?' ys i := by
  cases kind with
  | alongU => exact congrArg some (difference_congr h List.mem_cons_self hi)
  | alongV => exact congrArg some (difference_congr h List.mem_cons_self hi)
  | byValue =>
    cases hdivisor with
    | none => simp only [slope?, Option.map_none]
    | some hab =>
      exact congrArg some (quotient_congr h hab List.mem_cons_self
        (List.mem_cons_of_mem _ List.mem_cons_self) hi)

theorem derivative?_congr {divisor? divisor?' : Option (Array Float32)}
    (hdivisor : SameField r kind.directions points divisor? divisor?') (s : Storage)
    {xs ys : Array s.Elem} (h : ∀ k ∈ r.reach kind.directions points, xs[k]? = ys[k]?) :
    Option.Rel (fun f g => ∀ i ∈ points, f i = g i) (derivative? r kind divisor? s xs)
      (derivative? r kind divisor?' s ys) := by
  have hslope {component : s.Elem → Float32} {i : Nat} (hi : i ∈ points) :
      slope? r kind divisor? (xs.map component) i = slope? r kind divisor?' (ys.map component) i :=
    slope?_congr hdivisor (getElem?_map_reach h component) hi
  cases s with
  | float => exact .some fun i hi => slope?_congr hdivisor h hi
  | triple | color =>
    refine .some fun i hi => ?_
    simp only [List.map_cons, List.map_nil, List.mapM_cons, List.mapM_nil, hslope hi]
  | string | matrix => exact .none

variable {n : Nat} {mask : Mask} {type : ValueType} {detail : Detail} {h : Host Grid} {v w : Value}

/-- The answer, once it is known how to differentiate. -/
def answerDerivative (type : ValueType) (varying : Bool) (s : Storage)
    (slope : Option (Nat → Option s.Elem)) (out : Value) (mask : Mask) : Serving Grid Value :=
  match slope with
  | none => do
    report s!"cannot differentiate {type.keyword} value"
    return out.clear mask
  | some f => return if varying then (out.clear mask).setAll s f mask.ones else out.clear mask

theorem derivative_run (kind : DerivativeKind) (v : Value) (divisor? : Option Value) (out : Value)
    (mask : Mask) (h : Host Grid) : (derivative kind v divisor? out mask).run h =
      (answerDerivative v.type v.isVarying v.data.storage (derivative? h.env.resolution kind
        (divisor?.bind (field? · .float)) v.data.storage v.data.values) out mask).run h := by
  unfold derivative answerDerivative
  rw [StateT.run_bind, StateT.run_get, pure_bind]
  dsimp only
  generalize derivative? _ _ _ _ _ = slope
  cases slope with
  | none => rfl
  | some f => cases v.isVarying <;> rfl

/-- A derivative of values that agree where they are reached from the running points. -/
theorem fillsAlike_derivative (hmask : ∀ i ∈ mask.ones, i < n)
    (hvw : v.Agrees Eq (· ∈ h.env.resolution.reach kind.directions mask.ones) w)
    (hsize : v.detail = .varying → v.size = w.size) {divisor? divisor?' : Option Value}
    (hdivisor : SameField h.env.resolution kind.directions mask.ones
      (divisor?.bind (field? · .float)) (divisor?'.bind (field? · .float))) :
    FillsAlike n mask type detail h (fun out => derivative kind v divisor? out mask)
      (fun out => derivative kind w divisor?' out mask) := by
  obtain ⟨ys, hw, hys⟩ : ∃ ys : Array v.data.storage.Elem, w.data = ⟨v.data.storage, ys⟩ ∧
      ∀ k ∈ h.env.resolution.reach kind.directions mask.ones, v.data.values[k]? = ys[k]? := by
    cases hd : v.detail with
    | uniform => exact ⟨v.data.values, by rw [hvw.eq_of_detail hd], fun _ _ => rfl⟩
    | varying => exact hvw.getElem?_values hd (hsize hd)
  have hrel := derivative?_congr hdivisor v.data.storage hys
  have hvarying : w.isVarying = v.isVarying := congrArg Detail.isVarying hvw.detail.symm
  intro out out' hout hout'
  rw [derivative_run, derivative_run, hvarying, ← hvw.type, hw]
  generalize derivative? _ _ _ _ v.data.values = slope at hrel ⊢
  generalize derivative? _ _ _ v.data.storage ys = slope' at hrel ⊢
  have hcleared : Value.FilledAlike (· ∈ mask.ones) out out' (out.clear mask, h) (out'.clear mask, h) :=
    fillsAlike_clear hmask out out' hout hout'
  cases hrel with
  | none => exact fillsAlike_clear hmask out out' hout hout'
  | @some f g hfg =>
    cases v.isVarying with
    | false => exact hcleared
    | true =>
      have hsize : (out.clear mask).size = (out'.clear mask).size := by
        rw [hcleared.kind.size, hcleared.kind'.size, hout.size, hout'.size, hout.detail,
          hout'.detail]
      exact ⟨hcleared.agrees.setAll hsize v.data.storage hfg,
        hcleared.kind.trans (Value.sameKind_setAll ..), hcleared.kind'.trans (Value.sameKind_setAll ..),
        rfl⟩

/-- A value computed from the differences of points along both directions. -/
def ofDifferences (g : Grid) (s : Storage) (f : Triple Float32 → Triple Float32 → s.Elem)
    (p out : Value) (mask : Mask) : Value :=
  match field? p .triple with
  | some ps => out.write s mask fun i =>
      f (g.resolution.tripleDifference .alongU ps i) (g.resolution.tripleDifference .alongV ps i)
  | none => out.clear mask

/-- A normal or an area, of points that agree where they are reached. -/
theorem fillsAlike_ofDifferences (hmask : ∀ i ∈ mask.ones, i < n)
    (hvw : v.Agrees Eq (· ∈ h.env.resolution.reach [.alongU, .alongV] mask.ones) w)
    (hsize : v.detail = .varying → v.size = w.size) (hu : detail = .uniform → v.detail = .uniform)
    {s : Storage} (hs : type.storage = s) (f : Triple Float32 → Triple Float32 → s.Elem) :
    FillsAlike n mask type detail h (fun out => return h.env.ofDifferences s f v out mask)
      (fun out => return h.env.ofDifferences s f w out mask) := by
  have hfield := hvw.field? hsize .triple
  unfold ofDifferences
  generalize hps : field? v .triple = ps? at hfield ⊢
  generalize field? w .triple = ps?' at hfield ⊢
  cases hfield with
  | none => exact fillsAlike_clear hmask
  | @some ps ps' hsame =>
    refine fillsAlike_write hmask hs fun i hi => ?_
    have hi : i ∈ mask.ones := by
      cases detail with
      | uniform =>
        unfold field? at hps
        rw [if_neg (by simp [Value.isVarying_eq_false_iff.mpr (hu rfl)])] at hps
        cases hps
      | varying => exact hi
    have hdifference {component : Triple Float32 → Float32} {d : Direction}
        (hd : d ∈ [Direction.alongU, .alongV]) :
        h.env.resolution.difference d (ps.map component) i =
          h.env.resolution.difference d (ps'.map component) i :=
      difference_congr (getElem?_map_reach hsame component) hd hi
    simp only [tripleDifference, hdifference List.mem_cons_self,
      hdifference (List.mem_cons_of_mem _ List.mem_cons_self)]

theorem calculateNormal_eq (g : Grid) (p out : Value) (mask : Mask) :
    g.calculateNormal p out mask = g.ofDifferences .triple Triple.cross p out mask := by
  unfold calculateNormal ofDifferences
  cases field? p .triple <;> rfl

theorem area_eq (g : Grid) (p out : Value) (mask : Mask) :
    g.area p out mask = g.ofDifferences .float (fun along across =>
      ((along.scale ((g.graphics.get .uStep).getFloat 0)).cross
        (across.scale ((g.graphics.get .vStep).getFloat 0))).length) p out mask := by
  unfold area ofDifferences
  cases field? p .triple <;> rfl

end Grid

end ShadingMachine
