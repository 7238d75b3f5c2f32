import Mathlib.Data.Int.Log
import ShadingMachine.Number.Truncation
import ShadingMachine.Proofs.Number.Double
import ShadingMachine.Proofs.Number.ReadBack

/-! The number that a single-precision float is. Floats are rounded down as that number is, and a
quotient that fits a float is exact. A number in the range of floats has a float next to it, half a
gap away at most, and the sum of two floats is the one next to their exact sum. -/
namespace ShadingMachine.Number

open Float.Model Float.Model.UnpackedFloat Format

/-- The number that a float is, if it is finite. -/
def singleValue? (x : Float32) : Option ℚ := value? x.toModel.unpack

def zeroOf (negative : Bool) : Float32 := .ofBits (if negative then 0x80000000 else 0)

theorem unpack_zeroOf (negative : Bool) :
    (zeroOf negative).toModel.unpack = .zero (signOf negative) := by
  cases negative <;> rfl

theorem singleValue?_zeroOf (negative : Bool) : singleValue? (zeroOf negative) = some 0 := by
  cases negative <;> decide +kernel

theorem IsSingle.unpack_float {m : ℕ} {e : ℤ} (h : IsSingle m e) (negative : Bool) :
    (h.float negative).toModel.unpack = .finite (signOf negative) m e h.pos :=
  h.unpack_pack _

theorem singleValue?_float {m : ℕ} {e : ℤ} (h : IsSingle m e) (negative : Bool) :
    singleValue? (h.float negative) = some (((signOf negative).apply m : ℚ) * 2 ^ e) := by
  rw [singleValue?, h.unpack_float, value?_finite]

theorem singleValue?_of_partsOf {x : Float32} {negative : Bool} {b : Binary}
    (h : partsOf x = .finite negative b) :
    singleValue? x = some (((signOf negative).apply b.mantissa : ℚ) * 2 ^ b.exponent) := by
  by_cases h₀ : b.mantissa = 0
  · have hx : x = zeroOf negative := eq_zero_of_partsOf h h₀
    rw [hx, singleValue?_zeroOf, h₀]
    cases negative <;> simp [signOf, Sign.apply]
  · obtain ⟨hb, -, hx⟩ := eq_single_of_partsOf h h₀
    rw [hx, singleValue?_float hb]

section
variable {x : Float32} {v : ℚ}

theorem isFinite_of_value (h : singleValue? x = some v) : x.isFinite = true := by
  show x.toModel.unpack.isFinite = true
  rw [singleValue?] at h
  cases hx : x.toModel.unpack with
  | notANumber | infinity =>
    rw [hx] at h
    cases h
  | zero | finite => rfl

/-- A finite float is a zero, or it has a mantissa and an exponent. -/
theorem cases_of_value (h : singleValue? x = some v) :
    (∃ negative, x = zeroOf negative) ∨
      ∃ m e, ∃ hm : IsSingle m e, ∃ negative : Bool, x = hm.float negative := by
  obtain ⟨negative, b, hparts⟩ := exists_partsOf (isFinite_of_value h)
  by_cases h₀ : b.mantissa = 0
  · exact .inl ⟨negative, eq_zero_of_partsOf hparts h₀⟩
  · obtain ⟨hb, -, hx⟩ := eq_single_of_partsOf hparts h₀
    exact .inr ⟨_, _, hb, negative, hx⟩

theorem eq_infinity_of_partsOf {negative : Bool} (h : partsOf x = .infinite negative) :
    x = .ofModel (.pack (.infinity (signOf negative))) := by
  have hlt : x.toBits.toNat < 2 ^ 32 := x.toBits.toNat_lt
  have hplus : (Float32.ofModel (.pack (.infinity .positive))).toBits.toNat = 0x7F800000 := rfl
  have hminus : (Float32.ofModel (.pack (.infinity .negative))).toBits.toNat = 0xFF800000 := rfl
  unfold partsOf at h
  dsimp only at h
  split at h
  · split at h
    · cases h
      refine eq_of_toNat_toBits ?_
      by_cases hsign : 0x80000000 ≤ x.toBits.toNat
      · rw [decide_eq_true hsign, signOf, if_pos rfl, hminus]
        omega
      · rw [decide_eq_false hsign, signOf, if_neg Bool.false_ne_true, hplus]
        omega
    · cases h
  · split at h <;> cases h

/-- There is only one float that is not a number. -/
theorem eq_nan_of_partsOf (h : partsOf x = .notANumber) :
    x = .ofModel (.pack .notANumber) := by
  unfold partsOf at h
  dsimp only at h
  split at h
  · rename_i htop
    split at h
    · cases h
    · rename_i hfraction
      have hmantissa : @unpackMantissa binary32 x.toModel.toBits.toBitVec ≠ 0#23 := by
        intro hnil
        have hnat := congrArg BitVec.toNat hnil
        rw [unpackMantissa, BitVec.toNat_cast, BitVec.extractLsb_toNat] at hnat
        exact hfraction hnat
      have hbits := x.toModel.valid.eq_packedNaN (unpackExponent_of_top htop) hmantissa
      exact eq_of_toNat_toBits (congrArg BitVec.toNat hbits)
  · split at h <;> cases h

/-- Any other float is an infinity, or not a number. -/
theorem cases_of_no_value (h : singleValue? x = none) :
    x = .ofModel (.pack .notANumber) ∨ ∃ s, x = .ofModel (.pack (.infinity s)) := by
  cases hparts : partsOf x with
  | notANumber => exact .inl (eq_nan_of_partsOf hparts)
  | infinite negative => exact .inr ⟨_, eq_infinity_of_partsOf hparts⟩
  | finite negative b =>
    rw [singleValue?_of_partsOf hparts] at h
    cases h

/-- No finite float is larger than the largest one. -/
theorem abs_le_of_value (h : singleValue? x = some v) : |v| ≤ (2 ^ 24 - 1) * 2 ^ (104 : ℤ) := by
  rcases cases_of_value h with ⟨negative, rfl⟩ | ⟨m, e, hm, negative, rfl⟩
  · rw [singleValue?_zeroOf, Option.some_inj] at h
    rw [← h]
    norm_num
  · rw [singleValue?_float, Option.some_inj] at h
    have hmantissa : (m : ℚ) ≤ 2 ^ 24 - 1 := by
      rw [le_sub_iff_add_le]
      exact_mod_cast Nat.succ_le_of_lt hm.lt
    have hsize : |v| = m * 2 ^ e := by
      rw [← h, abs_mul, abs_of_pos (two_zpow_pos e)]
      cases negative <;> simp [signOf, Sign.apply]
    rw [hsize]
    exact mul_le_mul hmantissa (zpow_le_zpow_right₀ one_le_two hm.high) (two_zpow_pos e).le
      (by norm_num)

end

/-! Rounding down -/

theorem Binary.floor_eq (negative : Bool) (b : Binary) :
    b.floor negative = ⌊((signOf negative).apply b.mantissa : ℚ) * 2 ^ b.exponent⌋ := by
  have hsign : (signOf negative).apply b.mantissa =
      if negative then -(b.mantissa : ℤ) else b.mantissa := by
    cases negative <;> rfl
  rw [hsign, Binary.floor]
  generalize (if negative then -(b.mantissa : ℤ) else b.mantissa) = m
  split
  · rename_i he
    obtain ⟨k, hk⟩ := Int.eq_ofNat_of_zero_le he
    rw [hk, Int.toNat_natCast, Int.shiftLeft_eq, zpow_natCast]
    exact_mod_cast (Int.floor_intCast (R := ℚ) (m * 2 ^ k)).symm
  · rename_i he
    obtain ⟨k, hk⟩ : ∃ k : ℕ, b.exponent = -k := ⟨(-b.exponent).toNat, by omega⟩
    rw [hk, neg_neg, Int.toNat_natCast, Int.shiftRight_eq_div_pow, zpow_neg, zpow_natCast,
      ← div_eq_mul_inv]
    exact_mod_cast (Rat.floor_intCast_div_natCast m (2 ^ k)).symm

/-- A finite float is rounded down to a word, or to the end of the words that is nearest. -/
theorem floorWord_of_value {x : Float32} {v : ℚ} (h : singleValue? x = some v) :
    floorWord x = max (-2 ^ 31) (min (2 ^ 31 - 1) ⌊v⌋) := by
  obtain ⟨negative, b, hparts⟩ := exists_partsOf (isFinite_of_value h)
  rw [singleValue?_of_partsOf hparts, Option.some_inj] at h
  rw [floorWord, hparts, ← h, ← Binary.floor_eq]
  rfl

/-! Quotients of whole numbers -/

/-- Dividing a float by another is rounding their exact quotient. -/
theorem div_float {m₁ m₂ m : ℕ} {e₁ e₂ e : ℤ} {v : ℚ} (h₁ : IsSingle m₁ e₁) (h₂ : IsSingle m₂ e₂)
    (hv : RoundsTo v m e) (hm : IsSingle m e)
    (hvalue : ((m₁ : ℚ) * 2 ^ e₁) / (m₂ * 2 ^ e₂) = v) :
    h₁.float false / h₂.float false = hm.float false := by
  have hdiv : h₁.float false / h₂.float false = .ofModel (.pack (UnpackedFloat.div binary32
      (h₁.float false).toModel.unpack (h₂.float false).toModel.unpack)) := rfl
  rw [hdiv, unpack_float, unpack_float, div_eq hv hm h₁.pos h₂.pos hvalue]
  rfl

theorem ofNat_eq_float {n : ℕ} (h₀ : n ≠ 0) (h : n < 2 ^ 23)
    (hm : IsSingle (n * 2 ^ (23 - n.log2)) (n.log2 - 23)) : Float32.ofNat n = hm.float false := by
  have hvalue := whole_value ((Nat.log2_lt h₀).mpr (h.trans (by decide : 2 ^ 23 < 2 ^ 24)))
  have hrounds := RoundsTo.self (n * 2 ^ (23 - n.log2)) (n.log2 - 23)
  refine ofScientific_small hrounds hm h₀ h (Nat.zero_le 10) ?_
  rw [hvalue]
  simp

/-- A number of 16 bits divided by `2 ^ 16` keeps all its bits. -/
theorem singleValue?_ofNat_div {n : ℕ} (h : n < 65536) :
    singleValue? (Float32.ofNat n / 65536) = some ((n : ℚ) / 65536) := by
  by_cases h₀ : n = 0
  · subst h₀
    have hzero : singleValue? (Float32.ofNat 0 / 65536) = some 0 := by decide +kernel
    rw [hzero, Nat.cast_zero, zero_div]
  have hlog : n.log2 < 16 := (Nat.log2_lt h₀).mpr h
  have hn := isSingle_whole h₀ (h.trans (by decide))
  have hd := isSingle_whole (n := 65536) (by decide) (by decide)
  have hdivisor : (65536 : Float32) = hd.float false := ofNat_eq_float (by decide) (by decide) hd
  have hm : IsSingle (n * 2 ^ (23 - n.log2)) ((n.log2 : ℤ) - 23 - 16) :=
    ⟨hn.pos, hn.lt, by omega, by omega, fun _ => hn.full (by omega)⟩
  have hvalue : ((n * 2 ^ (23 - n.log2) : ℕ) : ℚ) * 2 ^ ((n.log2 : ℤ) - 23 - 16) = n / 65536 := by
    rw [zpow_sub₀ two_ne_zero, ← mul_div_assoc, whole_value (by omega)]
    norm_num
  have hquotient : (((n * 2 ^ (23 - n.log2) : ℕ) : ℚ) * 2 ^ ((n.log2 : ℤ) - 23)) /
      ((65536 * 2 ^ (23 - Nat.log2 65536) : ℕ) * 2 ^ ((Nat.log2 65536 : ℤ) - 23)) =
        ((n * 2 ^ (23 - n.log2) : ℕ) : ℚ) * 2 ^ ((n.log2 : ℤ) - 23 - 16) := by
    rw [hvalue, whole_value (by omega), whole_value (by decide)]
    norm_num
  rw [ofNat_eq_float h₀ (h.trans (by decide)) hn, hdivisor,
    div_float hn hd (.self _ _) hm hquotient, singleValue?_float]
  exact congrArg some hvalue

/-! Sums -/

/-- The whole number next to a number, of two the even one. -/
theorem exists_round {f : ℚ} (hf : 0 ≤ f) :
    ∃ r : ℕ, |(r : ℚ) - f| ≤ 1 / 2 ∧ (r % 2 = 1 → |(r : ℚ) - f| < 1 / 2) := by
  have hle := Nat.floor_le hf
  have hlt := Nat.lt_floor_add_one f
  generalize ⌊f⌋₊ = n at hle hlt
  rcases lt_trichotomy f (n + 1 / 2) with h | h | h
  · have hnear : |(n : ℚ) - f| < 1 / 2 := abs_lt.mpr ⟨by linarith, by linarith⟩
    exact ⟨n, hnear.le, fun _ => hnear⟩
  · rcases Nat.mod_two_eq_zero_or_one n with hn | hn
    · exact ⟨n, abs_le.mpr ⟨by linarith, by linarith⟩, by omega⟩
    · refine ⟨n + 1, abs_le.mpr ⟨?_, ?_⟩, by omega⟩ <;> push_cast <;> linarith
  · have hnear : |((n + 1 : ℕ) : ℚ) - f| < 1 / 2 := by
      push_cast
      exact abs_lt.mpr ⟨by linarith, by linarith⟩
    exact ⟨n + 1, hnear.le, fun _ => hnear⟩

/-- A number over the gap between the floats of its size. -/
structure IsScaled (f : ℚ) (t : ℤ) : Prop where
  low : -149 ≤ t
  one_le : 1 ≤ f
  lt : f < 2 ^ 24
  full : -149 < t → 2 ^ 23 ≤ f

theorem exists_scaled {v : ℚ} {k : ℤ} (hlow : 2 ^ (-149 : ℤ) ≤ v) (hhigh : v < 2 ^ k)
    (hk : -125 ≤ k) : ∃ f t, v = f * 2 ^ t ∧ IsScaled f t ∧ t ≤ k - 24 := by
  have hpos : 0 < v := (two_zpow_pos _).trans_le hlow
  have hbelow : (2 : ℚ) ^ Int.log 2 v ≤ v := by
    exact_mod_cast Int.zpow_log_le_self one_lt_two hpos
  have habove : v < (2 : ℚ) ^ (Int.log 2 v + 1) := by
    exact_mod_cast Int.lt_zpow_succ_log_self one_lt_two v
  generalize Int.log 2 v = p at hbelow habove
  have hpk := lt_of_two_zpow_lt (hbelow.trans_lt hhigh)
  obtain ⟨t, ht⟩ : ∃ t, t = max (p - 23) (-149) := ⟨_, rfl⟩
  have hp := two_zpow_pos t
  refine ⟨v / 2 ^ t, t, (div_mul_cancel₀ v hp.ne').symm, ⟨by omega, ?_, ?_, fun hfull => ?_⟩,
    by omega⟩
  · rw [one_le_div₀ hp]
    rcases (by omega : t = -149 ∨ t ≤ p) with rfl | hle
    · exact hlow
    · exact (zpow_le_zpow_right₀ one_le_two hle).trans hbelow
  · have hle : (2 : ℚ) ^ (p + 1) ≤ 2 ^ (24 + t) := zpow_le_zpow_right₀ one_le_two (by omega)
    rw [div_lt_iff₀ hp]
    exact_mod_cast habove.trans_le (hle.trans_eq (zpow_add₀ two_ne_zero _ _))
  · have hpt : p = 23 + t := by omega
    rw [hpt, zpow_add₀ two_ne_zero] at hbelow
    rw [le_div_iff₀ hp]
    exact_mod_cast hbelow

/-- Half a gap above the largest float, from where on numbers are rounded to infinity. -/
def limit : ℚ := (2 ^ 24 - 1 / 2) * 2 ^ (104 : ℤ)

namespace IsScaled

variable {f : ℚ} {t : ℤ} {r : ℕ}

theorem lt_of_limit (h : IsScaled f t) (hlimit : f * 2 ^ t < limit) : t < 105 := by
  by_contra hge
  have hfull := h.full (by omega)
  have hbig : (2 : ℚ) ^ (105 : ℤ) ≤ 2 ^ t := zpow_le_zpow_right₀ one_le_two (by omega)
  have hle : (2 : ℚ) ^ 23 * 2 ^ (105 : ℤ) ≤ f * 2 ^ t :=
    mul_le_mul hfull hbig (two_zpow_pos _).le (zero_le_one.trans h.one_le)
  have hlt : limit < 2 ^ 23 * 2 ^ (105 : ℤ) := by norm_num [limit]
  linarith

/-- The whole number next to it is a mantissa, unless it has one bit too many. -/
theorem roundsTo (h : IsScaled f t) (hnear : |(r : ℚ) - f| ≤ 1 / 2)
    (hodd : r % 2 = 1 → |(r : ℚ) - f| < 1 / 2) : RoundsTo (f * 2 ^ t) r t := by
  have hp := two_zpow_pos t
  obtain ⟨hlow, hhigh⟩ := abs_le.mp hnear
  refine ⟨mul_le_mul_of_nonneg_right ?_ hp.le, mul_le_mul_of_nonneg_right (by linarith) hp.le,
    fun hr => ?_⟩
  · split
    · rename_i hnarrow
      have hle := h.full hnarrow.2
      have hr : (r : ℚ) = 2 ^ 23 := by exact_mod_cast hnarrow.1
      linarith
    · linarith
  · obtain ⟨hlow', hhigh'⟩ := abs_lt.mp (hodd hr)
    exact ⟨mul_lt_mul_of_pos_right (by linarith) hp, mul_lt_mul_of_pos_right (by linarith) hp⟩

/-- One bit too many goes to the exponent. -/
theorem roundsTo_carry (h : IsScaled f t) (hnear : |((2 ^ 24 : ℕ) : ℚ) - f| ≤ 1 / 2) :
    RoundsTo (f * 2 ^ t) (2 ^ 23) (t + 1) := by
  have hp := two_zpow_pos t
  have hlow := h.low
  have hlt := h.lt
  obtain ⟨-, hhigh⟩ := abs_le.mp hnear
  push_cast at hhigh
  have hscale (c : ℚ) : c * 2 ^ (t + 1) = c * 2 * 2 ^ t := by
    rw [zpow_add_one₀ two_ne_zero]
    ring
  refine ⟨?_, ?_, by omega⟩
  · rw [if_pos ⟨rfl, by omega⟩, hscale]
    refine mul_le_mul_of_nonneg_right ?_ hp.le
    push_cast
    linarith
  · rw [hscale]
    refine mul_le_mul_of_nonneg_right ?_ hp.le
    push_cast
    linarith

section
variable (h : IsScaled f t) (hnear : |(r : ℚ) - f| ≤ 1 / 2)
include h hnear

theorem mantissa_pos : 0 < r := by
  have hone := h.one_le
  obtain ⟨hlow, -⟩ := abs_le.mp hnear
  exact Nat.cast_pos.mp (by linarith : (0 : ℚ) < r)

theorem mantissa_le : r ≤ 2 ^ 24 := by
  have hlt := h.lt
  obtain ⟨-, hhigh⟩ := abs_le.mp hnear
  have hr : (r : ℚ) < (2 ^ 24 : ℕ) + 1 := by
    push_cast
    linarith
  exact Nat.lt_succ_iff.mp (by exact_mod_cast hr)

theorem full_mantissa (ht : -149 < t) : 2 ^ 23 ≤ r := by
  have hfull := h.full ht
  obtain ⟨hlow, -⟩ := abs_le.mp hnear
  have hr : ((2 ^ 23 : ℕ) : ℚ) < r + 1 := by
    push_cast
    linarith
  exact Nat.lt_succ_iff.mp (by exact_mod_cast hr)

end

/-- Below the limit there is a float next to it, half a gap away at most. -/
theorem exists_single (h : IsScaled f t) (hlimit : f * 2 ^ t < limit) :
    ∃ m e, IsSingle m e ∧ RoundsTo (f * 2 ^ t) m e ∧
      |(m : ℚ) * 2 ^ e - f * 2 ^ t| ≤ 2 ^ (t - 1) := by
  have hp := two_zpow_pos t
  have hlow := h.low
  have hhigh := h.lt_of_limit hlimit
  obtain ⟨r, hnear, hodd⟩ := exists_round (zero_le_one.trans h.one_le)
  have herror : |(r : ℚ) * 2 ^ t - f * 2 ^ t| ≤ 2 ^ (t - 1) := by
    rw [← sub_mul, abs_mul, abs_of_pos hp, zpow_sub_one₀ two_ne_zero, mul_comm ((2 : ℚ) ^ t)]
    exact mul_le_mul_of_nonneg_right (hnear.trans_eq (one_div 2)) hp.le
  rcases (h.mantissa_le hnear).lt_or_eq with hr | rfl
  · exact ⟨r, t, ⟨h.mantissa_pos hnear, hr, hlow, by omega, h.full_mantissa hnear⟩,
      h.roundsTo hnear hodd, herror⟩
  · have hcarry : (2 ^ 24 - 1 / 2 : ℚ) ≤ f := by
      obtain ⟨-, hle⟩ := abs_le.mp hnear
      push_cast at hle
      linarith
    have ht : t < 104 := by
      refine lt_of_two_zpow_lt (lt_of_mul_lt_mul_left ?_ (by norm_num : (0 : ℚ) ≤ 2 ^ 24 - 1 / 2))
      exact (mul_le_mul_of_nonneg_right hcarry hp.le).trans_lt hlimit
    have hsame : ((2 ^ 23 : ℕ) : ℚ) * 2 ^ (t + 1) = (2 ^ 24 : ℕ) * 2 ^ t := by
      rw [zpow_add_one₀ two_ne_zero]
      push_cast
      ring
    refine ⟨2 ^ 23, t + 1, ⟨by omega, by omega, by omega, by omega, fun _ => le_rfl⟩,
      h.roundsTo_carry hnear, ?_⟩
    rwa [hsame]

end IsScaled

/-- Rounding takes a whole number times a power of two to the float next to it. -/
theorem round_eq {n m : ℕ} {e₀ e : ℤ} (h₀ : n ≠ 0) (hv : RoundsTo ((n : ℚ) * 2 ^ e₀) m e)
    (hm : IsSingle m e) (s : Sign) :
    UnpackedFloat.round binary32 s n e₀ = .finite s m e hm.pos := by
  obtain ⟨target, htarget⟩ : ∃ target, target = binary32.targetExponent (totalExponent n e₀) :=
    ⟨_, rfl⟩
  obtain ⟨j, hj⟩ : ∃ j, j = (e₀ - target).toNat := ⟨_, rfl⟩
  have htotal : totalExponent (n * 2 ^ j) (e₀ - j) = totalExponent n e₀ := by
    simp only [totalExponent, log2_mul_two_pow h₀]
    omega
  have hvalue : ((n * 2 ^ j : ℕ) : ℚ) * 2 ^ (e₀ - j) = n * 2 ^ e₀ := by
    rw [zpow_sub₀ two_ne_zero, zpow_natCast]
    push_cast
    field_simp
  have hround := roundWithAccuracy_eq hv hm (represents_exact _) hvalue
    (by rw [htotal, ← htarget]; omega) s
  have hshift : (e₀ - binary32.targetExponent (totalExponent n e₀)).toNat = j := by
    rw [← htarget, hj]
  rw [round_eq_roundWithAccuracy hshift, hround]

theorem exists_round_eq {n : ℕ} {e₀ k : ℤ} (h₀ : n ≠ 0) (he : -149 ≤ e₀)
    (hlimit : (n : ℚ) * 2 ^ e₀ < limit) (hlt : (n : ℚ) * 2 ^ e₀ < 2 ^ k) (hk : -125 ≤ k) :
    ∃ m e, ∃ hm : IsSingle m e, |(m : ℚ) * 2 ^ e - n * 2 ^ e₀| ≤ 2 ^ (k - 25) ∧
      ∀ s, UnpackedFloat.round binary32 s n e₀ = .finite s m e hm.pos := by
  have hone : (1 : ℚ) ≤ n := by exact_mod_cast Nat.one_le_iff_ne_zero.mpr h₀
  have hlow : (2 : ℚ) ^ (-149 : ℤ) ≤ n * 2 ^ e₀ :=
    (zpow_le_zpow_right₀ one_le_two he).trans (le_mul_of_one_le_left (two_zpow_pos e₀).le hone)
  obtain ⟨f, t, hf, hscaled, ht⟩ := exists_scaled hlow hlt hk
  obtain ⟨m, e, hm, hrounds, herror⟩ := hscaled.exists_single (hf ▸ hlimit)
  rw [← hf] at hrounds herror
  exact ⟨m, e, hm, herror.trans (zpow_le_zpow_right₀ one_le_two (by omega)),
    round_eq h₀ hrounds hm⟩

/-- A whole number times a power of two as a float: it is off by half a gap at most, and not on the
other side of zero. -/
theorem exists_normalize {n e₀ k : ℤ} (he : -149 ≤ e₀) (hlimit : |(n : ℚ) * 2 ^ e₀| < limit)
    (hlt : |(n : ℚ) * 2 ^ e₀| < 2 ^ k) (hk : -125 ≤ k) :
    ∃ c, singleValue? (.ofModel (.pack (.normalize binary32 n e₀ .positive))) = some c ∧
      |c - n * 2 ^ e₀| ≤ 2 ^ (k - 25) ∧ ((n : ℚ) * 2 ^ e₀ ≤ 0 → c ≤ 0) := by
  have hp := two_zpow_pos e₀
  rw [UnpackedFloat.normalize]
  rcases lt_trichotomy n 0 with hn | rfl | hn
  · obtain ⟨i, rfl⟩ : ∃ i : ℕ, n = -i := ⟨(-n).toNat, by omega⟩
    push_cast at hlimit hlt ⊢
    rw [neg_mul, abs_neg, abs_of_nonneg (by positivity)] at hlimit hlt
    have h₀ : i ≠ 0 := by omega
    obtain ⟨m, e, hm, herror, hround⟩ := exists_round_eq h₀ he hlimit hlt hk
    refine ⟨-(m * 2 ^ e), ?_, ?_, fun _ => by rw [neg_nonpos]; positivity⟩
    · rw [Int.compare_eq_lt.mpr hn, neg_neg, Int.toNat_natCast, hround]
      exact (singleValue?_float hm true).trans (by simp [signOf, Sign.apply])
    · rw [← abs_neg]
      convert herror using 2
      ring
  · have hzero : singleValue? (.ofModel (.pack (.zero .positive))) = some 0 := by decide +kernel
    exact ⟨0, hzero, by simp [(two_zpow_pos (k - 25)).le], fun _ => le_rfl⟩
  · obtain ⟨i, rfl⟩ := Int.eq_ofNat_of_zero_le hn.le
    have h₀ : i ≠ 0 := by omega
    have hpos : (0 : ℚ) < i * 2 ^ e₀ := by positivity
    rw [Int.cast_natCast] at hlimit hlt ⊢
    rw [abs_of_pos hpos] at hlimit hlt
    obtain ⟨m, e, hm, herror, hround⟩ := exists_round_eq h₀ he hlimit hlt hk
    refine ⟨m * 2 ^ e, ?_, herror, fun hle => absurd hpos hle.not_gt⟩
    rw [Int.compare_eq_gt.mpr hn, Int.toNat_natCast, hround]
    exact singleValue?_float hm false

/-- A mantissa moved up to fit a smaller exponent. -/
theorem apply_scaled (s : Sign) (m : ℕ) {e₀ e : ℤ} (h : e₀ ≤ e) :
    (s.apply (m * 2 ^ (e - e₀).toNat : ℕ) : ℚ) * 2 ^ e₀ = (s.apply m : ℚ) * 2 ^ e := by
  obtain ⟨j, rfl⟩ := Int.le.dest h
  have hj : (e₀ + j - e₀).toNat = j := by omega
  rw [hj, zpow_add₀ two_ne_zero, zpow_natCast]
  cases s <;> simp only [Sign.apply] <;> push_cast <;> ring

theorem add_eq (x y : Float32) : x + y =
    .ofModel (.pack (UnpackedFloat.add binary32 x.toModel.unpack y.toModel.unpack)) := rfl

/-- Adding two floats that are not zero is rounding their exact sum. -/
theorem exists_add_float {m₁ m₂ : ℕ} {e₁ e₂ : ℤ} (h₁ : IsSingle m₁ e₁) (h₂ : IsSingle m₂ e₂)
    (negative₁ negative₂ : Bool) : ∃ n : ℤ,
      (n : ℚ) * 2 ^ min e₁ e₂ = ((signOf negative₁).apply m₁ : ℚ) * 2 ^ e₁ +
        ((signOf negative₂).apply m₂ : ℚ) * 2 ^ e₂ ∧
      h₁.float negative₁ + h₂.float negative₂ =
        .ofModel (.pack (UnpackedFloat.normalize binary32 n (min e₁ e₂) .positive)) := by
  have hadd := add_eq (h₁.float negative₁) (h₂.float negative₂)
  rw [h₁.unpack_float, h₂.unpack_float] at hadd
  unfold UnpackedFloat.add decreaseExponent at hadd
  dsimp only at hadd
  rw [Nat.shiftLeft_eq, Nat.shiftLeft_eq] at hadd
  refine ⟨_, ?_, hadd⟩
  rw [Int.cast_add, add_mul, apply_scaled _ _ (min_le_left ..), apply_scaled _ _ (min_le_right ..)]

section
variable {m : ℕ} {e : ℤ} (h : IsSingle m e) (negative₁ negative : Bool)

theorem zeroOf_add_float : zeroOf negative₁ + h.float negative = h.float negative := by
  rw [add_eq, unpack_zeroOf, h.unpack_float]
  rfl

theorem float_add_zeroOf : h.float negative + zeroOf negative₁ = h.float negative := by
  rw [add_eq, unpack_zeroOf, h.unpack_float]
  rfl

end

section
variable {x y : Float32} {a b : ℚ} {k : ℤ}

/-- The sum of two floats is off from the exact sum by half a gap at most, and not on the other side
of zero. -/
theorem exists_value_add (hx : singleValue? x = some a) (hy : singleValue? y = some b)
    (hlimit : |a + b| < limit) (hlt : |a + b| < 2 ^ k) (hk : -125 ≤ k) :
    ∃ c, singleValue? (x + y) = some c ∧ |c - (a + b)| ≤ 2 ^ (k - 25) ∧
      (a + b ≤ 0 → c ≤ 0) := by
  have hexact {c : ℚ} (h : c = a + b) :
      |c - (a + b)| ≤ 2 ^ (k - 25) ∧ (a + b ≤ 0 → c ≤ 0) := by
    rw [h, sub_self, abs_zero]
    exact ⟨(two_zpow_pos _).le, id⟩
  rcases cases_of_value hx with ⟨s₁, rfl⟩ | ⟨m₁, e₁, h₁, s₁, rfl⟩ <;>
    rcases cases_of_value hy with ⟨s₂, rfl⟩ | ⟨m₂, e₂, h₂, s₂, rfl⟩
  · have hsum : singleValue? (zeroOf s₁ + zeroOf s₂) = some 0 := by
      cases s₁ <;> cases s₂ <;> decide +kernel
    rw [singleValue?_zeroOf, Option.some_inj] at hx hy
    exact ⟨0, hsum, hexact (by rw [← hx, ← hy, add_zero])⟩
  · rw [singleValue?_zeroOf, Option.some_inj] at hx
    rw [zeroOf_add_float]
    exact ⟨b, hy, hexact (by rw [← hx, zero_add])⟩
  · rw [singleValue?_zeroOf, Option.some_inj] at hy
    rw [float_add_zeroOf]
    exact ⟨a, hx, hexact (by rw [← hy, add_zero])⟩
  · rw [singleValue?_float, Option.some_inj] at hx hy
    obtain ⟨n, hn, hsum⟩ := exists_add_float h₁ h₂ s₁ s₂
    rw [hx, hy] at hn
    rw [hsum, ← hn]
    exact exists_normalize (le_min h₁.low h₂.low) (hn ▸ hlimit) (hn ▸ hlt) hk

end

end ShadingMachine.Number
