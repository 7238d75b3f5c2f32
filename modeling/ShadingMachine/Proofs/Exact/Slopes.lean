import Mathlib.Algebra.BigOperators.Ring.Finset
import Mathlib.Tactic.FieldSimp
import Mathlib.Tactic.Ring
import ShadingMachine.Proofs.Arrays.Elements
import ShadingMachine.Proofs.Exact.Rationals
import ShadingMachine.Proofs.Lockstep.Neighbours
import ShadingMachine.Proofs.Parameter.Elements

/-! Slopes of fields on a grid. A difference is taken of a point and a neighbour on its own row or
column, whether it is the next one or, at the end, the one before. So over exact rationals the
slopes of a field that rises evenly are the same at all points. -/
namespace ShadingMachine

namespace Resolution

section Neighbours

variable {r : Resolution} {row column i : Nat} {d : Direction}

/-- The point in a column of a row. -/
def pointAt (r : Resolution) (row column : Nat) : Nat := (r.u + 1) * row + column

theorem coordinate_pointAt (row : Nat) (h : column ≤ r.u) :
    r.coordinate (r.pointAt row column) .alongU = column ∧
      r.coordinate (r.pointAt row column) .alongV = row := by
  constructor
  · simp [coordinate, pointAt, Nat.mod_eq_of_lt (Nat.lt_succ_of_le h)]
  · simp [coordinate, pointAt, Nat.mul_add_div, Nat.div_eq_of_lt (Nat.lt_succ_of_le h)]

theorem pointAt_lt (hrow : row ≤ r.v) (hcolumn : column ≤ r.u) :
    r.pointAt row column < r.pointCount := by
  have hrows := Nat.mul_le_mul_left (r.u + 1) hrow
  rw [pointAt, pointCount, Nat.mul_succ]
  omega

theorem exists_pointAt (h : i < r.pointCount) :
    ∃ row ≤ r.v, ∃ column ≤ r.u, i = r.pointAt row column := by
  have hrow : i / (r.u + 1) < r.v + 1 := Nat.div_lt_of_lt_mul h
  have hcolumn : i % (r.u + 1) < r.u + 1 := Nat.mod_lt _ (Nat.succ_pos _)
  exact ⟨_, Nat.le_of_lt_succ hrow, _, Nat.le_of_lt_succ hcolumn, (Nat.div_add_mod _ _).symm⟩

/-- One point of the grid comes next after another along a direction. -/
structure Follows (r : Resolution) (d : Direction) (a b : Nat) : Prop where
  lt : a < b
  inside : b < r.pointCount
  along : r.coordinate b d = r.coordinate a d + 1
  across : ∀ d' ≠ d, r.coordinate b d' = r.coordinate a d'

theorem follows_right (hrow : row ≤ r.v) (h : column < r.u) :
    r.Follows .alongU (r.pointAt row column) (r.pointAt row (column + 1)) := by
  have ha := coordinate_pointAt row h.le
  have hb := coordinate_pointAt row (show column + 1 ≤ r.u from h)
  refine ⟨Nat.lt_succ_self _, pointAt_lt hrow h, by rw [ha.1, hb.1], fun d' hd' => ?_⟩
  cases d' with
  | alongU => exact absurd rfl hd'
  | alongV => rw [ha.2, hb.2]

theorem follows_down (h : row < r.v) (hcolumn : column ≤ r.u) :
    r.Follows .alongV (r.pointAt row column) (r.pointAt (row + 1) column) := by
  have ha := coordinate_pointAt row hcolumn
  have hb := coordinate_pointAt (row + 1) hcolumn
  refine ⟨?_, pointAt_lt h hcolumn, by rw [ha.2, hb.2], fun d' hd' => ?_⟩
  · rw [pointAt, pointAt, Nat.mul_succ]
    omega
  · cases d' with
    | alongU => rw [ha.1, hb.1]
    | alongV => exact absurd rfl hd'

theorem pointAt_succ_row (row column : Nat) :
    r.pointAt (row + 1) column = r.pointAt row column + (r.u + 1) := by
  rw [pointAt, pointAt, Nat.mul_succ]
  omega

/-- A point is compared with the next one on its row or column, or as the last one there with the one
before. -/
theorem exists_samples? (hi : i < r.pointCount) (hd : r.steps d ≠ 0) :
    ∃ a b, r.samples? d i = some (a, b) ∧ (a = i ∨ b = i) ∧ r.Follows d a b := by
  obtain ⟨row, hrow, column, hcolumn, rfl⟩ := exists_pointAt hi
  have hplace := coordinate_pointAt row hcolumn
  unfold samples?
  rw [if_neg hd]
  cases d with
  | alongU =>
    rw [hplace.1]
    by_cases hnext : column < r.u
    · exact ⟨_, _, if_pos hnext, .inl rfl, follows_right hrow hnext⟩
    · obtain ⟨before, rfl⟩ : ∃ before, column = before + 1 :=
        Nat.exists_eq_succ_of_ne_zero (by simp only [steps] at hd; omega)
      exact ⟨_, _, if_neg hnext, .inr rfl, follows_right hrow hcolumn⟩
  | alongV =>
    rw [hplace.2]
    by_cases hnext : row < r.v
    · refine ⟨_, _, if_pos hnext, .inl rfl, ?_⟩
      have hdown := follows_down hnext hcolumn
      rwa [pointAt_succ_row] at hdown
    · obtain ⟨before, rfl⟩ : ∃ before, row = before + 1 :=
        Nat.exists_eq_succ_of_ne_zero (by simp only [steps] at hd; omega)
      refine ⟨_, _, if_neg hnext, .inr rfl, ?_⟩
      have hdown := follows_down hrow hcolumn
      rw [pointAt_succ_row] at hdown ⊢
      simpa [stride] using hdown

theorem difference_of_steps {α : Type} [Scalar α] (hd : r.steps d = 0) (field : Array α) (i : Nat) :
    r.difference d field i = 0 := by
  rw [difference, (samples?_eq_none_iff r d i).mpr hd]

end Neighbours

section Affine

variable (r : Resolution) (rise rise' : Direction → ℚ) (c c' : ℚ)

/-- How far along a direction a point is, on a grid that is one long. -/
def share (i : Nat) (d : Direction) : ℚ :=
  if r.steps d = 0 then 0 else r.coordinate i d / r.steps d

/-- The slope that a field can have along a direction, which is none without steps. -/
def slope (d : Direction) : ℚ := if r.steps d = 0 then 0 else rise d

/-- A field that rises evenly along both directions. -/
def affine : Array ℚ :=
  .ofFn fun i : Fin r.pointCount =>
    rise .alongU * r.share i .alongU + rise .alongV * r.share i .alongV + c

variable {r rise rise' c c'} {i a b : Nat} {d : Direction}

theorem getElem?_affine (hi : i < r.pointCount) : (r.affine rise c)[i]? =
    some (rise .alongU * r.share i .alongU + rise .alongV * r.share i .alongV + c) := by
  simp [affine, hi]

theorem Follows.share_along (h : r.Follows d a b) (hd : r.steps d ≠ 0) :
    r.share b d = r.share a d + 1 / r.steps d := by
  rw [share, share, if_neg hd, if_neg hd, h.along]
  push_cast
  ring

theorem Follows.share_across (h : r.Follows d a b) {d' : Direction} (hd' : d' ≠ d) :
    r.share b d' = r.share a d' := by
  rw [share, share, h.across d' hd']

theorem difference_affine (hi : i < r.pointCount) :
    r.difference d (r.affine rise c) i = r.slope rise d := by
  by_cases hd : r.steps d = 0
  · rw [difference_of_steps hd, slope, if_pos hd]
  · obtain ⟨a, b, hsamples, -, h⟩ := exists_samples? hi hd
    have hsteps : (r.steps d : ℚ) ≠ 0 := Nat.cast_ne_zero.mpr hd
    rw [difference, hsamples]
    dsimp only
    rw [getElem?_affine (h.lt.trans h.inside), getElem?_affine h.inside, slope, if_neg hd]
    cases d with
    | alongU =>
      rw [h.share_along hd, h.share_across (by decide : Direction.alongV ≠ .alongU)]
      show (_ - _) * (r.steps .alongU : ℚ) = _
      field_simp
      ring
    | alongV =>
      rw [h.share_along hd, h.share_across (by decide : Direction.alongU ≠ .alongV)]
      show (_ - _) * (r.steps .alongV : ℚ) = _
      field_simp
      ring

theorem quotient_affine (hi : i < r.pointCount) :
    r.quotient (r.affine rise c) (r.affine rise' c') i =
      ∑ d ∈ ({.alongU, .alongV} : Finset Direction) with r.slope rise' d ≠ 0,
        r.slope rise d / r.slope rise' d := by
  rw [Finset.sum_filter, Finset.sum_pair (by decide)]
  unfold quotient
  simp only [difference_affine hi, bne_iff_ne, mul_one_div]
  split_ifs <;> simp

end Affine

end Resolution

/-- The fields of numbers that a field is made of, if it can be differentiated. -/
def Storage.fields : (s : Storage) → Array s.Elem → List (Array Float32)
  | .float, xs => [xs]
  | .triple, us => [us.map (·.x), us.map (·.y), us.map (·.z)]
  | .color, cs => [cs.map (·.r), cs.map (·.g), cs.map (·.b)]
  | .string, _ | .matrix, _ => []

theorem Value.get_setAll {s : Storage} (f : Nat → Option s.Elem) {out : Value} {points : List Nat}
    (hout : out.detail = .varying) (hs : out.data.storage = s)
    (hpoints : ∀ p ∈ points, p < out.size) (i : Nat) :
    (out.setAll s f points).get s i =
      if i ∈ points then (f i).getD (out.get s i) else out.get s i := by
  induction points generalizing out with
  | nil => simp [setAll]
  | cons p points ih =>
    obtain ⟨hp, hrest⟩ := List.forall_mem_cons.mp hpoints
    show (Value.setAll s f points ((f p).elim out (out.set s p))).get s i = _
    cases hx : f p with
    | none =>
      rw [Option.elim_none, ih hout hs hrest]
      by_cases hip : i = p <;> simp [hip, hx]
    | some x =>
      have hkind := out.sameKind_set s p x
      have hget : (out.set s p x).get s i = if i = p then x else out.get s i := by
        rw [get_of_varying (hkind.detail.trans hout), get_of_varying hout]
        show (out.data.set s (out.place p) x).get s i = _
        rw [place_varying hout, Data.get_set hs hp]
      rw [Option.elim_some, ih (hkind.detail.trans hout) (hkind.storage.trans hs)
        (fun q hq => (hrest q hq).trans_eq hkind.size.symm), hget]
      by_cases hip : i = p
      · subst hip
        simp [hx]
      · simp [hip]

namespace Grid

variable {r : Resolution} {kind : DerivativeKind} {divisor? : Option (Array Float32)} {s : Storage}
  {g : Array Float32 → Nat → Float32}

/-- Fields of triples and colors are differentiated component by component. -/
theorem exists_derivative? (hs : s ∈ [.float, .triple, .color]) (xs : Array s.Elem)
    (hslope : ∀ field i, slope? r kind divisor? field i = some (g field i)) :
    ∃ f, derivative? r kind divisor? s xs = some f ∧
      ∀ i, ∃ x, f i = some x ∧ s.components x = (s.fields xs).map (g · i) := by
  cases s with
  | float => exact ⟨_, rfl, fun i => ⟨_, hslope xs i, rfl⟩⟩
  | triple => exact ⟨_, rfl, fun i => ⟨⟨_, _, _⟩, by simp [hslope], rfl⟩⟩
  | color => exact ⟨_, rfl, fun i => ⟨⟨_, _, _⟩, by simp [hslope], rfl⟩⟩
  | string | matrix => simp at hs

theorem field?_eq_some {v : Value} {xs : Array s.Elem} (h : field? v s = some xs) :
    v.isVarying = true ∧ v.data = ⟨s, xs⟩ := by
  unfold field? at h
  split at h
  · rename_i hvarying
    refine ⟨hvarying, ?_⟩
    obtain ⟨type, detail, s', ys⟩ := v
    by_cases hs : s' = s
    · subst hs
      obtain rfl : ys = xs := by simpa using h
      rfl
    · simp [Data.as?, hs] at h
  · cases h

/-- A derivative at an active point. -/
theorem components_derivative {v out : Value} {w? : Option Value} {mask : Mask}
    {xs : Array s.Elem} (h : Host Grid) (hs : s ∈ [.float, .triple, .color])
    (hv : field? v s = some xs) (hout : out.detail = .varying) (hstorage : out.data.storage = s)
    (hmask : ∀ i ∈ mask.ones, i < out.size)
    (hslope : ∀ field i, slope? h.env.resolution kind (w?.bind (field? · .float)) field i =
      some (g field i)) {i : Nat} (hi : i ∈ mask.ones) :
    s.components (((derivative kind v w? out mask).run h).1.get s i) =
      (s.fields xs).map (g · i) := by
  obtain ⟨hvarying, hdata⟩ := field?_eq_some hv
  obtain ⟨f, hf, hx⟩ := exists_derivative? hs xs hslope
  obtain ⟨x, hx, hcomponents⟩ := hx i
  have hkind : out.SameKind (out.clear mask) := out.sameKind_write _ mask _
  rw [derivative_run, hdata]
  dsimp only
  rw [hf, hvarying]
  show s.components (((out.clear mask).setAll s f mask.ones).get s i) = _
  rw [Value.get_setAll f (hkind.detail.trans hout) (hkind.storage.trans hstorage)
    (fun p hp => (hmask p hp).trans_eq hkind.size.symm), if_pos hi, hx]
  exact hcomponents

end Grid

/-- Differences stay on the row or the column of a point and inside the grid, and there are none along
a direction without steps. Over exact rationals the slopes of a field that rises evenly are found at
every point, and the derivative by another such field is the sum of the quotients of their slopes. The
derivatives of a varying field are these differences and quotients of it, component by component, at
every active point of the grid. -/
theorem derivatives_of_grid :
    (∀ (r : Resolution) (i : Nat) (d : Direction), i < r.pointCount → r.steps d ≠ 0 →
      ∃ a b, r.samples? d i = some (a, b) ∧ (a = i ∨ b = i) ∧ r.Follows d a b) ∧
    (∀ (α : Type) [Scalar α] (r : Resolution) (d : Direction) (field : Array α) (i : Nat),
      r.steps d = 0 → r.difference d field i = 0) ∧
    (∀ (r : Resolution) (rise rise' : Direction → ℚ) (c c' : ℚ) (i : Nat), i < r.pointCount →
      (∀ d, r.difference d (r.affine rise c) i = r.slope rise d) ∧
      r.quotient (r.affine rise c) (r.affine rise' c') i =
        ∑ d ∈ ({.alongU, .alongV} : Finset Direction) with r.slope rise' d ≠ 0,
          r.slope rise d / r.slope rise' d) ∧
    ∀ (h : Host Grid) (v out : Value) (mask : Mask) (s : Storage) (xs : Array s.Elem),
      s ∈ [.float, .triple, .color] → Grid.field? v s = some xs → out.detail = .varying →
      out.data.storage = s → (∀ i ∈ mask.ones, i < out.size) → ∀ i ∈ mask.ones,
        let r := h.env.resolution
        let answer (kind : DerivativeKind) (divisor? : Option Value) : List Float32 :=
          s.components (((Grid.derivative kind v divisor? out mask).run h).1.get s i)
        answer .alongU none = (s.fields xs).map (r.difference .alongU · i) ∧
        answer .alongV none = (s.fields xs).map (r.difference .alongV · i) ∧
        ∀ w ys, Grid.field? w .float = some ys →
          answer .byValue (some w) = (s.fields xs).map (r.quotient · ys i) := by
  refine ⟨fun r i d hi hd => Resolution.exists_samples? hi hd,
    fun _ _ r d field i hd => Resolution.difference_of_steps hd field i,
    fun r rise rise' c c' i hi =>
      ⟨fun d => Resolution.difference_affine hi, Resolution.quotient_affine hi⟩, ?_⟩
  intro h v out mask s xs hs hv hout hstorage hmask i hi r answer
  refine ⟨?_, ?_, fun w ys hw => ?_⟩
  · exact Grid.components_derivative h hs hv hout hstorage hmask (fun _ _ => rfl) hi
  · exact Grid.components_derivative h hs hv hout hstorage hmask (fun _ _ => rfl) hi
  · refine Grid.components_derivative h hs hv hout hstorage hmask (fun field i => ?_) hi
    rw [Option.bind_some, hw]
    rfl

/-- Three points in one row. The last of them is compared with the one before it. -/
theorem derivatives_of_grid_one_row :
    let r : Resolution := ⟨2, 0⟩
    let v : Value := ⟨.float, .varying, ⟨.float, #[1, 2, 4]⟩⟩
    let out : Value := ⟨.float, .varying, ⟨.float, #[0, 0, 0]⟩⟩
    (∃ a b, r.samples? .alongU 2 = some (a, b) ∧ (a = 2 ∨ b = 2) ∧ r.Follows .alongU a b) ∧
    r.difference .alongU (r.affine (fun _ => 5) 1) 2 = 5 ∧
    r.difference .alongV (r.affine (fun _ => 5) 1) 2 = 0 ∧
    ((Grid.derivative .alongU v none out (.full 3)).run ⟨.fresh 2 0, #[]⟩).1.getFloat 2 = 4 := by
  intro r v out
  obtain ⟨hsamples, hlevel, haffine, hanswer⟩ := derivatives_of_grid
  obtain ⟨hslope, -⟩ := haffine r (fun _ => 5) (fun _ => 5) 1 1 2 (by decide)
  refine ⟨hsamples r 2 .alongU (by decide) (by decide), hslope .alongU,
    hlevel ℚ r .alongV _ 2 rfl, ?_⟩
  obtain ⟨hu, -⟩ := hanswer ⟨.fresh 2 0, #[]⟩ v out (.full 3) .float #[1, 2, 4] (by decide) rfl rfl
    rfl (by decide +kernel) 2 (by decide +kernel)
  refine (List.cons.inj hu).1.trans ?_
  decide +kernel

end ShadingMachine
