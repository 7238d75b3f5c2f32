import Mathlib.Algebra.Order.Field.Basic
import Mathlib.Algebra.Order.Field.Power
import Mathlib.Algebra.Order.Ring.Rat
import Mathlib.Tactic.FieldSimp
import Mathlib.Tactic.IntervalCases
import Mathlib.Tactic.Linarith
import Mathlib.Tactic.NormNum
import Mathlib.Tactic.Ring
import ShadingMachine.Number.Numeral
import ShadingMachine.Proofs.Number.Single

/-! Rounding to single precision. A rational number between the middles of the gaps below and
above a float is rounded to that float, whichever way the number is computed. -/
namespace ShadingMachine.Number

open Float.Model Float.Model.UnpackedFloat Format

/-- The numbers that a mantissa with its two residual bits stands for. -/
def Represents (em : ExtendedMantissa) (f : ℚ) : Prop :=
  match em.roundBit, em.stickyBit with
  | false, false => f = em.mantissa
  | false, true => em.mantissa < f ∧ f < em.mantissa + 1 / 2
  | true, false => f = em.mantissa + 1 / 2
  | true, true => em.mantissa + 1 / 2 < f ∧ f < em.mantissa + 1

namespace Represents

variable {em : ExtendedMantissa} {f : ℚ}

theorem le (h : Represents em f) : em.mantissa ≤ f := by
  obtain ⟨m, round, sticky⟩ := em
  cases round <;> cases sticky <;> simp only [Represents] at h ⊢
  · exact h.ge
  · exact h.1.le
  · linarith
  · linarith [h.1]

theorem lt (h : Represents em f) : f < em.mantissa + 1 := by
  obtain ⟨m, round, sticky⟩ := em
  cases round <;> cases sticky <;> simp only [Represents] at h ⊢
  · linarith
  · linarith [h.2]
  · linarith
  · exact h.2

theorem shiftRightOne (h : Represents em f) : Represents em.shiftRightOne (f / 2) := by
  obtain ⟨m, round, sticky⟩ := em
  have hm : (m : ℚ) = (m % 2 : ℕ) + 2 * (m / 2 : ℕ) := by exact_mod_cast (Nat.mod_add_div m 2).symm
  rcases Nat.mod_two_eq_zero_or_one m with hr | hr <;> rw [hr] at hm <;> cases round <;>
    cases sticky <;>
      simp only [Represents, ExtendedMantissa.shiftRightOne, hr, bne_self_eq_false, Nat.cast_zero,
        Nat.cast_one, Bool.or_false, Bool.or_true, (by decide : ((1 : ℕ) != 0) = true)] at h hm ⊢
  · linarith
  · constructor <;> linarith
  · constructor <;> linarith
  · constructor <;> linarith
  · linarith
  · constructor <;> linarith
  · constructor <;> linarith
  · constructor <;> linarith

theorem shiftRight (h : Represents em f) (n : ℕ) : Represents (em >>> n) (f / 2 ^ n) := by
  induction n with
  | zero => rwa [pow_zero, div_one]
  | succ n ih =>
    have hsucc : em >>> (n + 1) = (em >>> n).shiftRightOne := rfl
    have hdiv : f / 2 ^ (n + 1) = f / 2 ^ n / 2 := by rw [pow_succ, div_div]
    rw [hsucc, hdiv]
    exact ih.shiftRightOne

/-- The nearest whole number, of two the even one. -/
theorem roundedMantissa (h : Represents em f) {r : ℕ} (hlow : (r : ℚ) - 1 / 2 ≤ f)
    (hhigh : f ≤ r + 1 / 2) (heven : r % 2 = 1 → (r : ℚ) - 1 / 2 < f ∧ f < r + 1 / 2) :
    em.roundedMantissa = r := by
  obtain ⟨m, round, sticky⟩ := em
  cases round <;> cases sticky <;> simp only [Represents] at h <;>
    simp only [ExtendedMantissa.roundedMantissa, ExtendedMantissa.accuracy,
      Accuracy.roundToNearestEven]
  · have h₁ : (m : ℚ) < r + 1 := by linarith
    have h₂ : (r : ℚ) < m + 1 := by linarith
    norm_cast at h₁ h₂
    omega
  · have h₁ : (m : ℚ) < r + 1 := by linarith
    have h₂ : (r : ℚ) < m + 1 := by linarith
    norm_cast at h₁ h₂
    omega
  · -- In the middle between `m` and `m + 1` only an even number is left.
    have h₁ : (m : ℚ) ≤ r := by linarith
    have h₂ : (r : ℚ) ≤ m + 1 := by linarith
    norm_cast at h₁ h₂
    have hr : r % 2 ≠ 1 := by
      intro hodd
      obtain ⟨hlow', hhigh'⟩ := heven hodd
      have h₃ : (m : ℚ) < r := by linarith
      have h₄ : (r : ℚ) < m + 1 := by linarith
      norm_cast at h₃ h₄
      omega
    omega
  · have h₁ : (m : ℚ) < r := by linarith
    have h₂ : (r : ℚ) < m + 2 := by linarith
    norm_cast at h₁ h₂
    omega

end Represents

theorem represents_exact (m : ℕ) : Represents (.ofMantissaAndAccuracy m .exact) m := rfl

/-- A quotient with its remainder. -/
theorem represents_fraction (a : ℕ) {b : ℕ} (hb : 0 < b) :
    Represents (.ofMantissaAndAccuracy (a / b) (accuracyOfFraction (a % b) b)) (a / b) := by
  have hbq : (0 : ℚ) < b := by exact_mod_cast hb
  have hab : (a : ℚ) = b * (a / b : ℕ) + (a % b : ℕ) := by exact_mod_cast (Nat.div_add_mod a b).symm
  have hr : ((a % b : ℕ) : ℚ) < b := by exact_mod_cast Nat.mod_lt a hb
  have hf : (a : ℚ) / b = (a / b : ℕ) + (a % b : ℕ) / b := by
    rw [hab]
    field_simp
  rw [hf]
  unfold accuracyOfFraction
  split
  · rename_i hzero
    simp [hzero, Represents, ExtendedMantissa.ofMantissaAndAccuracy]
  · rename_i hzero
    have hrest : (0 : ℚ) < (a % b : ℕ) := by exact_mod_cast Nat.pos_of_ne_zero hzero
    have hpos : ((a % b : ℕ) : ℚ) / b > 0 := div_pos hrest hbq
    have hone : ((a % b : ℕ) : ℚ) / b < 1 := (div_lt_one hbq).mpr hr
    rcases hcmp : compare (2 * (a % b)) b with _ | _ | _ <;>
      simp only [Represents, ExtendedMantissa.ofMantissaAndAccuracy]
    · have hlt : (2 * (a % b : ℕ) : ℚ) < b := by exact_mod_cast Nat.compare_eq_lt.mp hcmp
      have hhalf : ((a % b : ℕ) : ℚ) / b < 1 / 2 := by
        rw [div_lt_div_iff₀ hbq two_pos]
        linarith
      constructor <;> linarith
    · have heq : (2 * (a % b : ℕ) : ℚ) = b := by exact_mod_cast Nat.compare_eq_eq.mp hcmp
      have hhalf : ((a % b : ℕ) : ℚ) / b = 1 / 2 := by
        rw [div_eq_div_iff hbq.ne' two_ne_zero]
        linarith
      rw [hhalf]
    · have hgt : (b : ℚ) < 2 * (a % b : ℕ) := by exact_mod_cast Nat.compare_eq_gt.mp hcmp
      have hhalf : 1 / 2 < ((a % b : ℕ) : ℚ) / b := by
        rw [div_lt_div_iff₀ two_pos hbq]
        linarith
      constructor <;> linarith

/-- Below the middle of the gap above the float, and above the middle of the gap below it, which
is half as wide where the exponent falls; a middle belongs to the even mantissa. -/
structure RoundsTo (v : ℚ) (m : ℕ) (e : ℤ) : Prop where
  low : ((m : ℚ) - if m = 2 ^ 23 ∧ -149 < e then 1 / 4 else 1 / 2) * 2 ^ e ≤ v
  high : v ≤ ((m : ℚ) + 1 / 2) * 2 ^ e
  even : m % 2 = 1 → ((m : ℚ) - 1 / 2) * 2 ^ e < v ∧ v < ((m : ℚ) + 1 / 2) * 2 ^ e

theorem two_zpow_pos (e : ℤ) : (0 : ℚ) < 2 ^ e := zpow_pos two_pos e

theorem lt_of_two_zpow_lt {a b : ℤ} (h : (2 : ℚ) ^ a < 2 ^ b) : a < b :=
  (zpow_lt_zpow_iff_right₀ one_lt_two).mp h

namespace IsSingle

variable {m : ℕ} {e : ℤ}

theorem targetExponent (h : IsSingle m e) :
    binary32.targetExponent (totalExponent m e) = e := by
  have hlow := h.low
  have hfull := h.full
  rw [targetExponent_single, totalExponent]
  by_cases hm : m < 2 ^ 23
  · have hlog := log2_lt h.pos hm
    omega
  · have hlog := log2_eq (Nat.le_of_not_lt hm) h.lt
    omega

end IsSingle

namespace RoundsTo

variable {v : ℚ} {m : ℕ} {e : ℤ}

theorem self (m : ℕ) (e : ℤ) : RoundsTo ((m : ℚ) * 2 ^ e) m e := by
  have hp := two_zpow_pos e
  refine ⟨?_, ?_, fun _ => ⟨?_, ?_⟩⟩
  · split <;> nlinarith
  · nlinarith
  · nlinarith
  · nlinarith

theorem half_le (h : RoundsTo v m e) : ((m : ℚ) - 1 / 2) * 2 ^ e ≤ v := by
  have hp := two_zpow_pos e
  refine le_trans ?_ h.low
  split <;> nlinarith

theorem pos (h : RoundsTo v m e) (hm : IsSingle m e) : (2 : ℚ) ^ (e - 1) ≤ v := by
  have hone : (1 : ℚ) ≤ m := by exact_mod_cast hm.pos
  have hp := two_zpow_pos e
  rw [zpow_sub_one₀ two_ne_zero]
  refine le_trans ?_ h.half_le
  nlinarith

theorem lt_high (h : RoundsTo v m e) (hm : IsSingle m e) : v < 2 ^ (e + 24) := by
  have hp := two_zpow_pos e
  have hlt : (m : ℚ) + 1 ≤ 2 ^ (24 : ℤ) := by exact_mod_cast hm.lt
  have hhigh := h.high
  rw [zpow_add₀ two_ne_zero]
  nlinarith

/-- A full mantissa leaves no more than one bit below the number. -/
theorem full_le (h : RoundsTo v m e) (hm : 2 ^ 23 ≤ m) : (2 : ℚ) ^ (e + 22) ≤ v := by
  have hp := two_zpow_pos e
  have hle : (8388608 : ℚ) ≤ m := by exact_mod_cast hm
  have hbits : (2 : ℚ) ^ (22 : ℤ) = 4194304 := by norm_num
  have hhalf := h.half_le
  rw [zpow_add₀ two_ne_zero, hbits]
  nlinarith

/-- Below the first full mantissa the exponent falls. -/
theorem narrow_low (h : RoundsTo v m e) (he : -149 < e) (hm : 2 ^ 23 ≤ m)
    (hv : v < 2 ^ (e + 23)) : m = 2 ^ 23 ∧ ((2 : ℚ) ^ 24 - 1 / 2) * 2 ^ (e - 1) ≤ v := by
  have hp := two_zpow_pos e
  have hhalf := h.half_le
  have hbits : (2 : ℚ) ^ (23 : ℤ) = 8388608 := by norm_num
  have hmlt : (m : ℚ) < 8388609 := by
    rw [zpow_add₀ two_ne_zero, hbits] at hv
    by_contra hge
    nlinarith
  have hmeq : m = 2 ^ 23 := by
    have hmlt' : m < 8388609 := by exact_mod_cast hmlt
    omega
  refine ⟨hmeq, ?_⟩
  have hlow := h.low
  rw [if_pos ⟨hmeq, he⟩, hmeq] at hlow
  rw [zpow_sub_one₀ two_ne_zero]
  norm_num at hlow ⊢
  nlinarith

end RoundsTo

/-- The exponent that the first shift goes to is that of the result, or the one below it where
the number is just below a power of two. -/
theorem targetExponent_cases {v : ℚ} {m : ℕ} {e : ℤ} (hv : RoundsTo v m e) (hm : IsSingle m e)
    {M : ℕ} {e₀ : ℤ} {f : ℚ} (hle : M ≤ f) (hlt : f < M + 1) (hf : f * 2 ^ e₀ = v)
    (he : e₀ ≤ binary32.targetExponent (totalExponent M e₀)) :
    binary32.targetExponent (totalExponent M e₀) = e ∨
      binary32.targetExponent (totalExponent M e₀) = e - 1 ∧ m = 2 ^ 23 ∧
        v < 2 ^ (e + 23) ∧ ((2 : ℚ) ^ 24 - 1 / 2) * 2 ^ (e - 1) ≤ v := by
  have hp₀ := two_zpow_pos e₀
  have hlow := hm.low
  -- The number lies below two to its total exponent, and not below half of that.
  have hbelow : v < 2 ^ (totalExponent M e₀) := by
    have hM : (M : ℚ) + 1 ≤ 2 ^ ((M.log2 + 1 : ℕ) : ℤ) := by
      exact_mod_cast Nat.lt_log2_self
    have htotal : totalExponent M e₀ = ((M.log2 + 1 : ℕ) : ℤ) + e₀ := by
      simp [totalExponent]
    rw [htotal, zpow_add₀ two_ne_zero, ← hf]
    nlinarith
  have habove : M ≠ 0 → (2 : ℚ) ^ (totalExponent M e₀ - 1) ≤ v := by
    intro h₀
    have hM : (2 : ℚ) ^ (M.log2 : ℤ) ≤ M := by exact_mod_cast Nat.log2_self_le h₀
    have htotal : totalExponent M e₀ - 1 = (M.log2 : ℤ) + e₀ := by
      simp only [totalExponent]
      omega
    rw [htotal, zpow_add₀ two_ne_zero, ← hf]
    nlinarith
  have hzero : M = 0 → totalExponent M e₀ = 1 + e₀ := by
    rintro rfl
    simp [totalExponent]
  have htarget : binary32.targetExponent (totalExponent M e₀) =
      max (totalExponent M e₀ - 24) (-149) := rfl
  rw [htarget] at he ⊢
  generalize totalExponent M e₀ = total at *
  have hupper : total - 24 ≤ e := by
    by_cases h₀ : M = 0
    · have := hzero h₀
      omega
    · have := lt_of_two_zpow_lt (lt_of_le_of_lt (habove h₀) (hv.lt_high hm))
      omega
  by_cases hleast : e = -149
  · omega
  have hfull := hm.full (by omega)
  by_cases hpower : v < 2 ^ (e + 23)
  · obtain ⟨hmeq, hv'⟩ := hv.narrow_low (by omega) hfull hpower
    have hlower := lt_of_two_zpow_lt (lt_of_le_of_lt (hv.full_le hfull) hbelow)
    by_cases h₀ : M = 0
    · have := hzero h₀
      omega
    · have hupper' := lt_of_two_zpow_lt (lt_of_le_of_lt (habove h₀) hpower)
      exact .inr ⟨by omega, hmeq, hpower, hv'⟩
  · have hlower := lt_of_two_zpow_lt (lt_of_le_of_lt (not_lt.mp hpower) hbelow)
    omega

theorem shiftToTargetExponent_eq {m : ℕ} {e : ℤ} (hm : IsSingle m e) (j : ℕ) :
    shiftToTargetExponent binary32 (m * 2 ^ j) (e - j) .exact = (⟨m, false, false⟩, e) := by
  have htotal : totalExponent (m * 2 ^ j) (e - j) = totalExponent m e := by
    simp only [totalExponent, log2_mul_two_pow hm.pos.ne']
    omega
  have hj : (e - (e - (j : ℤ))).toNat = j := by omega
  simp only [UnpackedFloat.shiftToTargetExponent, htotal, hm.targetExponent, shiftToExponent, hj,
    ExtendedMantissa.ofMantissaAndAccuracy, shiftRight_mul_two_pow]
  congr 1
  omega

/-- A number is rounded to the float that it is nearest to. -/
theorem roundWithAccuracy_eq {v : ℚ} {m : ℕ} {e : ℤ} (hv : RoundsTo v m e) (hm : IsSingle m e)
    {M : ℕ} {e₀ : ℤ} {accuracy : Accuracy} {f : ℚ}
    (hf : Represents (.ofMantissaAndAccuracy M accuracy) f) (hvalue : f * 2 ^ e₀ = v)
    (he : e₀ ≤ binary32.targetExponent (totalExponent M e₀)) (s : Sign) :
    roundWithAccuracy binary32 s M e₀ accuracy = .finite s m e hm.pos := by
  have hmantissa : (ExtendedMantissa.ofMantissaAndAccuracy M accuracy).mantissa = M := by
    rcases accuracy with _ | (_ | _ | _) <;> rfl
  have hle : M ≤ f := hmantissa ▸ hf.le
  have hlt : f < M + 1 := hmantissa ▸ hf.lt
  have hcases := targetExponent_cases hv hm hle hlt hvalue he
  generalize htarget : binary32.targetExponent (totalExponent M e₀) = target at he hcases
  obtain ⟨k, hk⟩ : ∃ k : ℕ, target = e₀ + k := ⟨(target - e₀).toNat, by omega⟩
  have hshift : shiftToTargetExponent binary32 M e₀ accuracy =
      (ExtendedMantissa.ofMantissaAndAccuracy M accuracy >>> k, target) := by
    have hamount : (target - e₀).toNat = k := by omega
    simp only [UnpackedFloat.shiftToTargetExponent, htarget, shiftToExponent, hamount, ← hk]
  have hscaled : f / 2 ^ k = v / 2 ^ target := by
    rw [← hvalue, hk, zpow_add₀ two_ne_zero, zpow_natCast]
    have := two_zpow_pos e₀
    field_simp
  have hshifted := hscaled ▸ hf.shiftRight k
  have hp := two_zpow_pos target
  rcases hcases with rfl | ⟨rfl, rfl, hpower, hlow⟩
  · have hround := hshifted.roundedMantissa (r := m) ((le_div_iff₀ hp).mpr hv.half_le)
      ((div_le_iff₀ hp).mpr hv.high) fun hodd =>
        ⟨(lt_div_iff₀ hp).mpr (hv.even hodd).1, (div_lt_iff₀ hp).mpr (hv.even hodd).2⟩
    have hlast := shiftToTargetExponent_eq hm 0
    rw [pow_zero, mul_one, Nat.cast_zero, sub_zero] at hlast
    exact roundWithAccuracy_eq_finite hshift (by rw [hround, hlast]) hm.pos
  · have hhigh : v < (2 ^ 24 : ℕ) * 2 ^ (e - 1) := by
      have hsum : e + 23 = 24 + (e - 1) := by omega
      rw [hsum, zpow_add₀ two_ne_zero] at hpower
      exact_mod_cast hpower
    have hround := hshifted.roundedMantissa (r := 2 ^ 24)
      ((le_div_iff₀ hp).mpr (by exact_mod_cast hlow))
      ((div_le_iff₀ hp).mpr (hhigh.le.trans (mul_le_mul_of_nonneg_right (by linarith) hp.le)))
      fun hodd => by cases hodd
    have hlast : shiftToTargetExponent binary32 (2 ^ 24) (e - 1) .exact =
        (⟨2 ^ 23, false, false⟩, e) := shiftToTargetExponent_eq hm 1
    exact roundWithAccuracy_eq_finite hshift (by rw [hround, hlast]) hm.pos

/-! The ways to a float: a product, a quotient, a whole number -/

section

variable {v : ℚ} {m : ℕ} {e : ℤ} (hv : RoundsTo v m e) (hm : IsSingle m e)
include hv

/-- A product that fills the mantissa. -/
theorem mul_eq {m₁ m₂ : ℕ} {e₁ e₂ : ℤ} (h₁ : 0 < m₁) (h₂ : 0 < m₂) (hfull : 2 ^ 23 ≤ m₁ * m₂)
    (hvalue : ((m₁ : ℚ) * 2 ^ e₁) * (m₂ * 2 ^ e₂) = v) :
    UnpackedFloat.mul binary32 (.finite .positive m₁ e₁ h₁) (.finite .positive m₂ e₂ h₂) =
      .finite .positive m e hm.pos := by
  have hproduct : ((m₁ * m₂ : ℕ) : ℚ) * 2 ^ (e₁ + e₂) = v := by
    rw [← hvalue, zpow_add₀ two_ne_zero]
    push_cast
    ring
  refine roundWithAccuracy_eq hv hm (represents_exact _) hproduct ?_ .positive
  have hlog : 23 ≤ (m₁ * m₂).log2 := (Nat.le_log2 (Nat.mul_ne_zero h₁.ne' h₂.ne')).mpr hfull
  rw [targetExponent_single, totalExponent]
  omega

theorem div_eq {m₁ m₂ : ℕ} {e₁ e₂ : ℤ} (h₁ : 0 < m₁) (h₂ : 0 < m₂)
    (hvalue : ((m₁ : ℚ) * 2 ^ e₁) / (m₂ * 2 ^ e₂) = v) :
    UnpackedFloat.div binary32 (.finite .positive m₁ e₁ h₁) (.finite .positive m₂ e₂ h₂) =
      .finite .positive m e hm.pos := by
  generalize htarget : min (e₁ - e₂)
    (binary32.targetExponent (totalExponent m₁ e₁ - totalExponent m₂ e₂)) = target
  obtain ⟨k, hk⟩ : ∃ k : ℕ, e₁ - e₂ = target + k := ⟨(e₁ - e₂ - target).toNat, by omega⟩
  have hcore : divCore binary32 m₁ e₁ m₂ e₂ =
      (m₁ * 2 ^ k / m₂, target, accuracyOfFraction (m₁ * 2 ^ k % m₂) m₂) := by
    have hamount : (e₁ - e₂ - target).toNat = k := by omega
    simp only [divCore, htarget, hamount, Nat.shiftLeft_eq]
  have hquotient : ((m₁ * 2 ^ k : ℕ) : ℚ) / m₂ * 2 ^ target = v := by
    have hexp : (2 : ℚ) ^ e₁ = 2 ^ target * 2 ^ k * 2 ^ e₂ := by
      rw [← zpow_natCast, ← zpow_add₀ two_ne_zero, ← zpow_add₀ two_ne_zero]
      congr 1
      omega
    have hp := two_zpow_pos e₂
    have hm₂ : (0 : ℚ) < m₂ := by exact_mod_cast h₂
    rw [← hvalue, hexp]
    push_cast
    field_simp
  unfold UnpackedFloat.div
  dsimp only
  rw [hcore]
  refine roundWithAccuracy_eq hv hm (represents_fraction _ h₂) hquotient ?_ _
  -- The quotient has at least as many bits as the difference of the total exponents says.
  have hlog : m₁.log2 + k ≤ (m₁ * 2 ^ k / m₂).log2 + 1 + m₂.log2 := by
    by_cases hk' : m₁.log2 + k ≤ m₂.log2
    · omega
    · obtain ⟨j, hj⟩ : ∃ j, m₁.log2 + k = j + m₂.log2 + 1 :=
        ⟨m₁.log2 + k - m₂.log2 - 1, by omega⟩
      have hle : 2 ^ j ≤ m₁ * 2 ^ k / m₂ := by
        rw [Nat.le_div_iff_mul_le h₂]
        calc 2 ^ j * m₂ ≤ 2 ^ j * 2 ^ (m₂.log2 + 1) :=
              Nat.mul_le_mul_left _ Nat.lt_log2_self.le
          _ = 2 ^ m₁.log2 * 2 ^ k := by
              rw [← Nat.pow_add, ← Nat.pow_add, hj, Nat.add_assoc]
          _ ≤ m₁ * 2 ^ k := Nat.mul_le_mul_right _ (Nat.log2_self_le h₁.ne')
      have hj' := (Nat.le_log2 (Nat.ne_of_gt (lt_of_lt_of_le (Nat.two_pow_pos j) hle))).mpr hle
      omega
  simp only [targetExponent_single, totalExponent] at htarget ⊢
  omega

end

end ShadingMachine.Number
