import Mathlib.Data.Rat.Floor
import ShadingMachine.Value.Triple

/-! Formulas over exact rationals, where no operation rounds; and over rationals that remember a
division by zero, where a formula has a value exactly when no divisor on the way to it was zero. -/
namespace ShadingMachine

namespace Scalar

instance : Scalar ℚ where
  ofNat _ := inferInstance
  ltDecidable := inferInstance
  leDecidable := inferInstance
  floor q := ⌊q⌋
  truncate q := if 0 ≤ q then ⌊q⌋ else ⌈q⌉
  isFinite _ := true
  fromNat n := n

@[simp] theorem floor_rat (q : ℚ) : floor q = ⌊q⌋ := rfl

@[simp] theorem truncate_intCast (n : ℤ) : truncate (n : ℚ) = n := by
  simp [truncate]

theorem larger_rat (x y : ℚ) : larger x y = max x y := by
  unfold larger
  rw [if_pos (BEq.refl x)]
  split
  · rename_i h
    exact (max_eq_right h.le).symm
  · rename_i h
    exact (max_eq_left (not_lt.mp h)).symm

theorem smaller_rat (x y : ℚ) : smaller x y = min x y := by
  unfold smaller
  rw [if_pos (BEq.refl x)]
  split
  · rename_i h
    exact (min_eq_right h.le).symm
  · rename_i h
    exact (min_eq_left (not_lt.mp h)).symm

end Scalar

/-- A rational number, or nothing once a divisor was zero. -/
structure Checked where
  value? : Option ℚ

namespace Checked

variable {p q : ℚ}

def of (q : ℚ) : Checked := ⟨some q⟩

def color (c : Color ℚ) : Color Checked := ⟨of c.r, of c.g, of c.b⟩

def combine (f : ℚ → ℚ → Option ℚ) (x y : Checked) : Checked :=
  ⟨x.value?.bind fun p => y.value?.bind (f p)⟩

/-- Whether both have a value and the values compare so. -/
def compare (f : ℚ → ℚ → Bool) (x y : Checked) : Bool :=
  (x.value?.bind fun p => y.value?.map (f p)).getD false

instance : Scalar Checked where
  add := combine fun p q => some (p + q)
  sub := combine fun p q => some (p - q)
  mul := combine fun p q => some (p * q)
  div := combine fun p q => if q = 0 then none else some (p / q)
  neg x := ⟨x.value?.map (- ·)⟩
  lt x y := compare (fun p q => decide (p < q)) x y
  le x y := compare (fun p q => decide (p ≤ q)) x y
  beq := compare (· == ·)
  default := of 0
  ofNat n := ⟨of (OfNat.ofNat n)⟩
  ltDecidable _ _ := inferInstanceAs (Decidable (_ = true))
  leDecidable _ _ := inferInstanceAs (Decidable (_ = true))
  floor x := ⟨x.value?.map Scalar.floor⟩
  truncate x := (x.value?.map Scalar.truncate).getD 0
  isFinite x := x.value?.isSome
  fromNat n := of n

@[simp] theorem color_r (c : Color ℚ) : (color c).r = of c.r := rfl
@[simp] theorem color_g (c : Color ℚ) : (color c).g = of c.g := rfl
@[simp] theorem color_b (c : Color ℚ) : (color c).b = of c.b := rfl

theorem ofNat_eq (n : Nat) : (OfNat.ofNat n : Checked) = of (OfNat.ofNat n) := rfl
theorem of_add : of p + of q = of (p + q) := rfl
theorem of_sub : of p - of q = of (p - q) := rfl
theorem of_mul : of p * of q = of (p * q) := rfl
theorem floor_of : Scalar.floor (of q) = of (Scalar.floor q) := rfl
theorem truncate_of : Scalar.truncate (of q) = Scalar.truncate q := rfl

theorem of_lt : of p < of q ↔ p < q := decide_eq_true_iff
theorem of_le : of p ≤ of q ↔ p ≤ q := decide_eq_true_iff
theorem of_beq : (of p == of q) = true ↔ p = q := beq_iff_eq (a := p)

theorem of_div (h : q ≠ 0) : of p / of q = of (p / q) :=
  congrArg Checked.mk (if_neg h)

theorem of_ite {a : Prop} [Decidable a] : (if a then of p else of q) = of (if a then p else q) :=
  (apply_ite of a p q).symm

theorem larger_of : Scalar.larger (of p) (of q) = of (Scalar.larger p q) := by
  simp only [Scalar.larger, of_lt, of_beq, of_ite, beq_iff_eq]

theorem smaller_of : Scalar.smaller (of p) (of q) = of (Scalar.smaller p q) := by
  simp only [Scalar.smaller, of_lt, of_beq, of_ite, beq_iff_eq]

end Checked

end ShadingMachine
