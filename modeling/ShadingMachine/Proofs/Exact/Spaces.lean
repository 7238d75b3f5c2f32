import Mathlib.LinearAlgebra.Matrix.NonsingularInverse
import ShadingMachine.Machine.Rule
import ShadingMachine.Machine.Service
import ShadingMachine.Proofs.Exact.Rationals
import ShadingMachine.Scene.Spaces

/-! Matrices and coordinate systems over exact rationals. The written-out cofactors are those of linear
algebra, and so the determinant and the inverse are. Going from one system to a second and on to a
third is going straight to the third; points, vectors and normals go the same way, each by a rule of
its own, and come back where they were. -/
namespace ShadingMachine.Mat4

variable {m n k : Mat4 ℚ}

def toMatrix (m : Mat4 ℚ) : Matrix (Fin 4) (Fin 4) ℚ := Matrix.of m.entry

theorem toMatrix_injective : Function.Injective toMatrix := fun m n h => by
  rw [← ofFn_entry m, ← ofFn_entry n]
  exact congrArg ofFn (Matrix.of.injective h)

@[simp] theorem toMatrix_ofFn (f : Fin 4 → Fin 4 → ℚ) : (ofFn f).toMatrix = Matrix.of f := by
  ext r c
  exact entry_ofFn f r c

theorem entry_mul (m n : Mat4 ℚ) (r c : Fin 4) :
    (m * n).entry r c = m.entry r 0 * n.entry 0 c + m.entry r 1 * n.entry 1 c +
      m.entry r 2 * n.entry 2 c + m.entry r 3 * n.entry 3 c := entry_ofFn _ r c

@[simp] theorem toMatrix_mul (m n : Mat4 ℚ) : (m * n).toMatrix = m.toMatrix * n.toMatrix := by
  ext r c
  rw [Matrix.mul_apply, Fin.sum_univ_four]
  exact entry_mul m n r c

@[simp] theorem toMatrix_identity : (identity : Mat4 ℚ).toMatrix = 1 := by
  ext r c
  rw [Matrix.one_apply]
  exact entry_ofFn _ r c

theorem mul_assoc (m n k : Mat4 ℚ) : m * n * k = m * (n * k) := by
  apply toMatrix_injective
  simp only [toMatrix_mul, Matrix.mul_assoc]

@[simp] theorem mul_identity (m : Mat4 ℚ) : m * identity = m := by
  apply toMatrix_injective
  simp

@[simp] theorem identity_mul (m : Mat4 ℚ) : identity * m = m := by
  apply toMatrix_injective
  simp

/-- Each of the sixteen is the signed minor that it stands for. -/
theorem toMatrix_adjugate (m : Mat4 ℚ) : m.adjugate.toMatrix = m.toMatrix.adjugate := by
  ext r c
  rw [Matrix.adjugate_fin_succ_eq_det_submatrix, Matrix.det_fin_three]
  fin_cases r <;> fin_cases c <;>
    simp [toMatrix, entry, adjugate, Fin.succAbove] <;> ring

theorem determinant_eq_det (m : Mat4 ℚ) : m.determinant = m.toMatrix.det := by
  have hfirst := congrFun₂ (Matrix.mul_adjugate m.toMatrix) 0 0
  rw [← toMatrix_adjugate, Matrix.mul_apply, Fin.sum_univ_four, Matrix.smul_apply,
    Matrix.one_apply_eq, smul_eq_mul, mul_one] at hfirst
  exact hfirst

/-- The sum over the ways to take one entry of each row and column. -/
def permutationSum (m : Mat4 ℚ) : ℚ :=
  ∑ σ : Equiv.Perm (Fin 4), (Equiv.Perm.sign σ : ℤ) * ∏ c, m.entry (σ c) c

theorem determinant_eq_permutationSum (m : Mat4 ℚ) : m.determinant = m.permutationSum := by
  rw [determinant_eq_det, Matrix.det_apply']
  rfl

/-- There is a matrix that gives the identity on either side. -/
def IsInvertible (m : Mat4 ℚ) : Prop := ∃ n, m * n = identity ∧ n * m = identity

theorem isInvertible_iff : m.IsInvertible ↔ m.determinant ≠ 0 := by
  rw [determinant_eq_det, ← isUnit_iff_ne_zero, ← Matrix.isUnit_iff_isUnit_det]
  constructor
  · rintro ⟨n, hmn, hnm⟩
    refine isUnit_iff_exists.mpr ⟨n.toMatrix, ?_, ?_⟩
    · rw [← toMatrix_mul, hmn, toMatrix_identity]
    · rw [← toMatrix_mul, hnm, toMatrix_identity]
  · intro h
    obtain ⟨b, hmb, hbm⟩ := isUnit_iff_exists.mp h
    refine ⟨ofFn (Matrix.of.symm b), toMatrix_injective ?_, toMatrix_injective ?_⟩
    · simpa using hmb
    · simpa using hbm

theorem inverse?_eq_none_iff : m.inverse? = none ↔ m.determinant = 0 := by
  unfold inverse?
  by_cases h : m.determinant = 0 <;> simp [h]

/-- The inverse is the one of linear algebra, where there is one. -/
theorem toMatrix_of_inverse? (h : m.inverse? = some n) : n.toMatrix = m.toMatrix⁻¹ := by
  have hdet : m.determinant ≠ 0 := fun hzero => by simp [inverse?_eq_none_iff.mpr hzero] at h
  have hn : n = m.adjugate.map (· * (1 / m.determinant)) := by
    simpa [inverse?, hdet] using h.symm
  rw [Matrix.inv_def, ← toMatrix_adjugate, ← determinant_eq_det, Ring.inverse_eq_inv', hn]
  ext r c
  rw [Matrix.smul_apply, smul_eq_mul, mul_comm, inv_eq_one_div]
  exact entry_ofFn _ r c

theorem mul_of_inverse? (h : m.inverse? = some n) : m * n = identity ∧ n * m = identity := by
  have hdet : IsUnit m.toMatrix.det := by
    rw [isUnit_iff_ne_zero, ← determinant_eq_det]
    exact fun hzero => by simp [inverse?_eq_none_iff.mpr hzero] at h
  constructor
  · apply toMatrix_injective
    rw [toMatrix_mul, toMatrix_of_inverse? h, Matrix.mul_nonsing_inv _ hdet, toMatrix_identity]
  · apply toMatrix_injective
    rw [toMatrix_mul, toMatrix_of_inverse? h, Matrix.nonsing_inv_mul _ hdet, toMatrix_identity]

theorem IsInvertible.exists_inverse? (h : m.IsInvertible) : ∃ n, m.inverse? = some n :=
  Option.ne_none_iff_exists'.mp fun hnone => isInvertible_iff.mp h (inverse?_eq_none_iff.mp hnone)

theorem inverse?_of_mul (h : m * n = identity) : m.inverse? = some n := by
  have hdet : m.determinant ≠ 0 := by
    rw [determinant_eq_det]
    refine left_ne_zero_of_mul_eq_one (b := n.toMatrix.det) ?_
    rw [← Matrix.det_mul, ← toMatrix_mul, h, toMatrix_identity, Matrix.det_one]
  obtain ⟨k, hk⟩ := (isInvertible_iff.mpr hdet).exists_inverse?
  have hkn : k = n := by
    calc k = k * (m * n) := by rw [h, mul_identity]
      _ = n := by rw [← mul_assoc, (mul_of_inverse? hk).2, identity_mul]
  rw [hk, hkn]

theorem divide_mul (h : m.IsInvertible) (k : Mat4 ℚ) : k.divide m * m = k := by
  obtain ⟨n, hn⟩ := h.exists_inverse?
  unfold divide
  rw [hn]
  dsimp only
  rw [mul_assoc, (mul_of_inverse? hn).2, mul_identity]

/-- The determinant is that of linear algebra. There is no inverse just where it is zero, and
elsewhere the inverse is one on either side; what has been divided by a matrix with inverse is given
back by multiplying with it. -/
theorem inverse_laws (m : Mat4 ℚ) :
    m.determinant = m.permutationSum ∧
    (m.inverse? = none ↔ m.permutationSum = 0) ∧
    (m.permutationSum ≠ 0 → ∃ n, m.inverse? = some n ∧ m * n = identity ∧ n * m = identity) ∧
    (m.IsInvertible ↔ m.permutationSum ≠ 0) ∧
    ∀ k, m.IsInvertible →
      Arithmetic.multiply.onMatrices (Arithmetic.divide.onMatrices k m) m = k := by
  rw [← determinant_eq_permutationSum]
  refine ⟨rfl, inverse?_eq_none_iff, fun h => ?_, isInvertible_iff, fun k h => divide_mul h k⟩
  obtain ⟨n, hn⟩ := (isInvertible_iff.mpr h).exists_inverse?
  exact ⟨n, hn, mul_of_inverse? hn⟩

/-- A matrix with no zero in it. -/
theorem inverse_laws_dense :
    let m : Mat4 ℚ := ⟨2, -1, 3, 5, 1, 4, -2, 7, 6, 3, 1, -4, -5, 2, 8, 9⟩
    (∃ n, m.inverse? = some n ∧ m * n = identity ∧ n * m = identity) ∧
      ∀ k, Arithmetic.multiply.onMatrices (Arithmetic.divide.onMatrices k m) m = k := by
  intro m
  have hdet : m.determinant ≠ 0 := by decide +kernel
  obtain ⟨hsum, -, hinverse, hinvertible, hdivide⟩ := inverse_laws m
  rw [hsum] at hdet
  exact ⟨hinverse hdet, fun k => hdivide k (hinvertible.mpr hdet)⟩

end ShadingMachine.Mat4

namespace ShadingMachine

namespace Mat4

variable {m n k : Mat4 ℚ}

/-- The homogeneous coordinate of a point after the matrix. -/
def weight (m : Mat4 ℚ) (p : Triple ℚ) : ℚ := p.x * m.m03 + p.y * m.m13 + p.z * m.m23 + m.m33

/-- One of the four coordinates of a point after the matrix, before the division by the last. -/
def coordinate (m : Mat4 ℚ) (p : Triple ℚ) : Fin 4 → ℚ :=
  Matrix.vecMul ![p.x, p.y, p.z, 1] m.toMatrix

theorem coordinate_eq (m : Mat4 ℚ) (p : Triple ℚ) (c : Fin 4) :
    m.coordinate p c =
      p.x * m.entry 0 c + p.y * m.entry 1 c + p.z * m.entry 2 c + m.entry 3 c := by
  simp [coordinate, Matrix.vecMul, dotProduct, Fin.sum_univ_four, toMatrix]

theorem weight_eq_coordinate (m : Mat4 ℚ) (p : Triple ℚ) : m.weight p = m.coordinate p 3 :=
  (m.coordinate_eq p 3).symm

theorem transformPoint_eq {p : Triple ℚ} (h : m.weight p ≠ 0) :
    m.transformPoint p =
      ⟨m.coordinate p 0 / m.weight p, m.coordinate p 1 / m.weight p,
        m.coordinate p 2 / m.weight p⟩ := by
  simp only [coordinate_eq]
  show (if m.weight p != 0 && m.weight p != 1 then _ else _) = _
  by_cases hone : m.weight p = 1
  · simp only [hone, div_one]
    rfl
  · simp only [bne_iff_ne.mpr h, bne_iff_ne.mpr hone]
    rfl

theorem coordinate_transformPoint {p : Triple ℚ} (h : m.weight p ≠ 0) (n : Mat4 ℚ) (c : Fin 4) :
    n.coordinate (m.transformPoint p) c = (m * n).coordinate p c / m.weight p := by
  rw [transformPoint_eq h, eq_div_iff h]
  simp only [coordinate_eq, entry_mul]
  field_simp
  simp only [weight_eq_coordinate, coordinate_eq]
  ring

theorem transformPoint_mul {p : Triple ℚ} (h : m.weight p ≠ 0) (hn : (m * n).weight p ≠ 0) :
    (m * n).transformPoint p = n.transformPoint (m.transformPoint p) := by
  have hweight : n.weight (m.transformPoint p) = (m * n).weight p / m.weight p := by
    rw [weight_eq_coordinate, weight_eq_coordinate (m * n), coordinate_transformPoint h]
  have hne : n.weight (m.transformPoint p) ≠ 0 := by
    rw [hweight]
    exact div_ne_zero hn h
  rw [transformPoint_eq hn, transformPoint_eq hne, hweight]
  simp only [coordinate_transformPoint h, div_div_div_cancel_right₀ h]

/-- The last column is zero but for its last entry, which is one. -/
structure IsAffine (m : Mat4 ℚ) : Prop where
  m03 : m.m03 = 0
  m13 : m.m13 = 0
  m23 : m.m23 = 0
  m33 : m.m33 = 1

namespace IsAffine

theorem weight_eq (h : m.IsAffine) (p : Triple ℚ) : m.weight p = 1 := by
  simp only [weight, h.m03, h.m13, h.m23, h.m33]
  ring

/-- Behind a matrix whose last column is so, the last column is that of the other matrix. -/
theorem entry_mul_last (h : n.IsAffine) (r : Fin 4) : (m * n).entry r 3 = m.entry r 3 := by
  have hprod : (m * n).entry r 3 = m.entry r 0 * n.m03 + m.entry r 1 * n.m13 +
      m.entry r 2 * n.m23 + m.entry r 3 * n.m33 := entry_mul m n r 3
  rw [hprod, h.m03, h.m13, h.m23, h.m33]
  ring

theorem mul (hm : m.IsAffine) (hn : n.IsAffine) : (m * n).IsAffine :=
  ⟨(hn.entry_mul_last 0).trans hm.m03, (hn.entry_mul_last 1).trans hm.m13,
    (hn.entry_mul_last 2).trans hm.m23, (hn.entry_mul_last 3).trans hm.m33⟩

theorem inverse? (h : m.IsAffine) (hn : m.inverse? = some n) : n.IsAffine := by
  have hidentity (r : Fin 4) : n.entry r 3 = (identity : Mat4 ℚ).entry r 3 := by
    rw [← h.entry_mul_last r, (mul_of_inverse? hn).2]
  exact ⟨hidentity 0, hidentity 1, hidentity 2, hidentity 3⟩

end IsAffine

/-- Only the first of the matrices must be without projection. -/
theorem transformVector_mul (h : m.IsAffine) (n : Mat4 ℚ) (v : Triple ℚ) :
    (m * n).transformVector v = n.transformVector (m.transformVector v) := by
  have hcolumn (c : Fin 4) :
      v.x * (m * n).entry 0 c + v.y * (m * n).entry 1 c + v.z * (m * n).entry 2 c =
        (m.transformVector v).x * n.entry 0 c + (m.transformVector v).y * n.entry 1 c +
          (m.transformVector v).z * n.entry 2 c := by
    simp only [entry_mul]
    simp only [transformVector, entry, h.m03, h.m13, h.m23]
    ring
  exact congrArg₂ (fun f g => f g) (congrArg₂ Triple.mk (hcolumn 0) (hcolumn 1)) (hcolumn 2)

theorem transformVector_identity (v : Triple ℚ) : identity.transformVector v = v := by
  obtain ⟨x, y, z⟩ := v
  simp [transformVector, identity, diagonal, ofFn]

theorem dot_transformVector (m : Mat4 ℚ) (u v : Triple ℚ) :
    (m.transpose.transformVector u).dot v = u.dot (m.transformVector v) := by
  simp only [Triple.dot, transformVector, transpose, ofFn, entry]
  ring

theorem transformNormal_of_inverse? (h : m.inverse? = some n) (u : Triple ℚ) :
    m.transformNormal u = n.transpose.transformVector u := by
  unfold transformNormal
  rw [h]

/-- A normal stays as it is against every vector that is taken along. -/
theorem dot_transformNormal (h : m.IsAffine) (hm : m.IsInvertible) (u v : Triple ℚ) :
    (m.transformNormal u).dot (m.transformVector v) = u.dot v := by
  obtain ⟨n, hn⟩ := hm.exists_inverse?
  rw [transformNormal_of_inverse? hn, dot_transformVector, ← transformVector_mul h,
    (mul_of_inverse? hn).1, transformVector_identity]

end Mat4

theorem Triple.ext_dot {u w : Triple ℚ} (h : ∀ v, u.dot v = w.dot v) : u = w := by
  obtain ⟨x, y, z⟩ := u
  obtain ⟨x', y', z'⟩ := w
  have hx := h ⟨1, 0, 0⟩
  have hy := h ⟨0, 1, 0⟩
  have hz := h ⟨0, 0, 1⟩
  simp only [dot, mul_one, mul_zero, add_zero, zero_add] at hx hy hz
  rw [hx, hy, hz]

namespace Mat4

variable {m n : Mat4 ℚ}

/-- There and back by a matrix and its inverse. -/
theorem carry_carry (hm : m.IsAffine) (hmn : m.inverse? = some n) (hnm : n.inverse? = some m)
    (type : ValueType) (u : Triple ℚ) : n.carry type (m.carry type u) = u := by
  have hidentity : m * n = identity := (mul_of_inverse? hmn).1
  have hvector (v : Triple ℚ) : n.transformVector (m.transformVector v) = v := by
    rw [← transformVector_mul hm, hidentity, transformVector_identity]
  have hpoint : n.transformPoint (m.transformPoint u) = u := by
    have hweight : m.weight u ≠ 0 := by simp [hm.weight_eq]
    have hone (p : Triple ℚ) : (identity : Mat4 ℚ).weight p = 1 :=
      IsAffine.weight_eq ⟨rfl, rfl, rfl, rfl⟩ p
    have hne : (m * n).weight u ≠ 0 := by simp [hidentity, hone]
    rw [← transformPoint_mul hweight hne, hidentity, transformPoint_eq (by simp [hone]), hone]
    obtain ⟨x, y, z⟩ := u
    simp [coordinate_eq, identity, diagonal]
  have hnormal : n.transformNormal (m.transformNormal u) = u := by
    refine Triple.ext_dot fun v => ?_
    rw [transformNormal_of_inverse? hnm, transformNormal_of_inverse? hmn, dot_transformVector,
      dot_transformVector, hvector]
  cases type with
  | vector => exact hvector u
  | normal => exact hnormal
  | float | string | point | color | matrix => exact hpoint

end Mat4

namespace Spaces

open Mat4

variable {s : Spaces ℚ} {source target : String} {m n : Mat4 ℚ}

theorem matrix?_eq_some_iff : s.matrix? source target = some m ↔
    ∃ a b c, s.get? source = some a ∧ s.get? target = some b ∧ b.inverse? = some c ∧
      a * c = m := by
  simp only [matrix?, Option.bind_eq_bind, Option.pure_def, Option.bind_eq_some_iff,
    Option.some.injEq]
  constructor
  · rintro ⟨a, ha, b, hb, c, hc, rfl⟩
    exact ⟨a, b, c, ha, hb, hc, rfl⟩
  · rintro ⟨a, b, c, ha, hb, hc, rfl⟩
    exact ⟨a, ha, b, hb, c, hc, rfl⟩

variable (hs : ∀ name m, s.get? name = some m → m.IsInvertible)
include hs

theorem matrix?_eq_none_iff (source target : String) :
    s.matrix? source target = none ↔ s.get? source = none ∨ s.get? target = none := by
  rw [← not_iff_not, ← ne_eq, Option.ne_none_iff_exists', not_or, ← ne_eq, ← ne_eq,
    Option.ne_none_iff_exists', Option.ne_none_iff_exists']
  simp only [matrix?_eq_some_iff]
  constructor
  · rintro ⟨_, a, b, _, ha, hb, -, -⟩
    exact ⟨⟨a, ha⟩, b, hb⟩
  · rintro ⟨⟨a, ha⟩, b, hb⟩
    obtain ⟨c, hc⟩ := (hs target b hb).exists_inverse?
    exact ⟨_, a, b, c, ha, hb, hc, rfl⟩

theorem matrix?_self {name : String} (h : s.get? name ≠ none) :
    s.matrix? name name = some identity := by
  obtain ⟨a, ha⟩ := Option.ne_none_iff_exists'.mp h
  obtain ⟨c, hc⟩ := (hs name a ha).exists_inverse?
  exact matrix?_eq_some_iff.mpr ⟨a, a, c, ha, ha, hc, (mul_of_inverse? hc).1⟩

omit hs in
/-- By way of another space. -/
theorem matrix?_trans {middle : String} (h : s.matrix? source middle = some m)
    (h' : s.matrix? middle target = some n) : s.matrix? source target = some (m * n) := by
  obtain ⟨a, b, c, ha, hb, hc, rfl⟩ := matrix?_eq_some_iff.mp h
  obtain ⟨b', d, e, hb', hd, he, rfl⟩ := matrix?_eq_some_iff.mp h'
  obtain rfl : b = b' := Option.some.inj (hb.symm.trans hb')
  refine matrix?_eq_some_iff.mpr ⟨a, d, e, ha, hd, he, ?_⟩
  rw [Mat4.mul_assoc, ← Mat4.mul_assoc c, (mul_of_inverse? hc).2, identity_mul]

/-- The way back is by the inverse. -/
theorem inverse?_matrix? (h : s.matrix? source target = some m)
    (h' : s.matrix? target source = some n) : m.inverse? = some n := by
  have hsource : s.get? source ≠ none := fun hnone => by
    simp [(matrix?_eq_none_iff hs source target).mpr (.inl hnone)] at h
  have hmn : some (m * n) = some identity :=
    (matrix?_trans h h').symm.trans (matrix?_self hs hsource)
  exact inverse?_of_mul (Option.some.inj hmn)

omit hs in
theorem isAffine_matrix? (haffine : ∀ name m, s.get? name = some m → m.IsAffine)
    (h : s.matrix? source target = some m) : m.IsAffine := by
  obtain ⟨a, b, c, ha, hb, hc, rfl⟩ := matrix?_eq_some_iff.mp h
  exact (haffine source a ha).mul ((haffine target b hb).inverse? hc)

/-- Where every space has an inverse, there is a way from each space to each. The way from a space to
itself changes nothing, and the way by a third space is the straight one. A product of matrices takes
a point along as the first and then the second do, unless the point goes to infinity; without
projection it does so with vectors, and a normal keeps its product with every vector. So what goes
from one space without projection to another and back is as it was. -/
theorem ways_compose :
    (∀ a, s.get? a ≠ none → s.matrix? a a = some identity) ∧
    (∀ a b c m n, s.matrix? a b = some m → s.matrix? b c = some n →
      s.matrix? a c = some (m * n)) ∧
    (∀ a b, s.matrix? a b = none ↔ s.get? a = none ∨ s.get? b = none) ∧
    (∀ (m n : Mat4 ℚ) (p : Triple ℚ), m.weight p ≠ 0 → (m * n).weight p ≠ 0 →
      n.transformPoint (m.transformPoint p) = (m * n).transformPoint p) ∧
    (∀ (m n : Mat4 ℚ) (v : Triple ℚ), m.IsAffine → n.IsAffine →
      n.transformVector (m.transformVector v) = (m * n).transformVector v) ∧
    (∀ (m : Mat4 ℚ) (u v : Triple ℚ), m.IsAffine → m.IsInvertible →
      (m.transformNormal u).dot (m.transformVector v) = u.dot v) ∧
    ((∀ name m, s.get? name = some m → m.IsAffine) →
      ∀ a b m n, s.matrix? a b = some m → s.matrix? b a = some n →
        ∀ (type : ValueType) (u : Triple ℚ), n.carry type (m.carry type u) = u) := by
  refine ⟨fun a ha => matrix?_self hs ha, fun a b c m n => matrix?_trans,
    matrix?_eq_none_iff hs, fun m n p hm hn => (transformPoint_mul hm hn).symm,
    fun m n v hm _ => (transformVector_mul hm n v).symm,
    fun m u v hm hinv => dot_transformNormal hm hinv u v, fun haffine a b m n hm hn => ?_⟩
  exact carry_carry (isAffine_matrix? haffine hm) (inverse?_matrix? hs hm hn)
    (inverse?_matrix? hs hn hm)

omit hs in
/-- A space that shears, stretches and moves, and one that turns a quarter and moves. -/
theorem ways_compose_sheared :
    let shear : Mat4 ℚ := ⟨1, 2, 0, 0, 0, 1, 0, 0, 3, 0, 2, 0, 5, 6, 7, 1⟩
    let turn : Mat4 ℚ := ⟨0, 1, 0, 0, -1, 0, 0, 0, 0, 0, 1, 0, 0, 4, 0, 1⟩
    let s : Spaces ℚ := [("shear", shear), ("turn", turn)]
    (∀ name m, s.get? name = some m → m.IsInvertible ∧ m.IsAffine) ∧
      ∃ m n, s.matrix? "shear" "turn" = some m ∧ s.matrix? "turn" "shear" = some n ∧
        m * n = identity ∧ n.carry .normal (m.carry .normal ⟨1, 2, 3⟩) = ⟨1, 2, 3⟩ := by
  intro shear turn s
  have hall (name : String) (m : Mat4 ℚ) (h : s.get? name = some m) :
      m.IsInvertible ∧ m.IsAffine := by
    have hmem : m = shear ∨ m = turn := by
      simp only [s, get?, List.lookup_cons, List.lookup_nil] at h
      split at h
      · exact .inl (Option.some.inj h).symm
      · split at h
        · exact .inr (Option.some.inj h).symm
        · cases h
    rcases hmem with rfl | rfl
    · exact ⟨isInvertible_iff.mpr (by decide +kernel), rfl, rfl, rfl, rfl⟩
    · exact ⟨isInvertible_iff.mpr (by decide +kernel), rfl, rfl, rfl, rfl⟩
  obtain ⟨hself, htrans, hnone, -, -, -, hback⟩ := ways_compose fun name m h => (hall name m h).1
  have hways : s.matrix? "shear" "turn" ≠ none ∧ s.matrix? "turn" "shear" ≠ none := by
    constructor <;> rw [Ne, hnone] <;> simp [s, get?]
  obtain ⟨m, hm⟩ := Option.ne_none_iff_exists'.mp hways.1
  obtain ⟨n, hn⟩ := Option.ne_none_iff_exists'.mp hways.2
  have hmn := htrans _ _ _ m n hm hn
  rw [hself "shear" (by simp [s, get?])] at hmn
  exact ⟨hall, m, n, hm, hn, (Option.some.inj hmn).symm,
    hback (fun name m h => (hall name m h).2) _ _ m n hm hn .normal ⟨1, 2, 3⟩⟩

end Spaces

end ShadingMachine
