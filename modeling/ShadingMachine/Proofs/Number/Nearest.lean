import ShadingMachine.Proofs.Number.Rounding

/-! Reading a written number as the float nearest to it. Small numbers take a short cut through
whole numbers and powers of ten that floats hold exactly, and the rest are rounded once. -/
namespace ShadingMachine.Number

open Float.Model Float.Model.UnpackedFloat Format

variable {v : ℚ} {m : ℕ} {e : ℤ}

theorem log2_mul_fill {n : ℕ} (h₀ : n ≠ 0) (h : n < 2 ^ 24) :
    (n * 2 ^ (23 - n.log2)).log2 = 23 := by
  have hlog : n.log2 < 24 := (Nat.log2_lt h₀).mpr h
  rw [log2_mul_two_pow h₀]
  omega

/-- A whole number with its bits moved up to fill the mantissa. -/
theorem isSingle_whole {n : ℕ} (h₀ : n ≠ 0) (h : n < 2 ^ 24) :
    IsSingle (n * 2 ^ (23 - n.log2)) (n.log2 - 23) := by
  have hlog : n.log2 < 24 := (Nat.log2_lt h₀).mpr h
  have hpos : n * 2 ^ (23 - n.log2) ≠ 0 := Nat.mul_ne_zero h₀ (Nat.two_pow_pos _).ne'
  have hfill := (Nat.log2_eq_iff hpos).mp (log2_mul_fill h₀ h)
  exact ⟨Nat.pos_of_ne_zero hpos, hfill.2, by omega, by omega, fun _ => hfill.1⟩

theorem whole_value {n : ℕ} (h : n.log2 < 24) :
    ((n * 2 ^ (23 - n.log2) : ℕ) : ℚ) * 2 ^ ((n.log2 : ℤ) - 23) = n := by
  have hexp : (n.log2 : ℤ) - 23 = -((23 - n.log2 : ℕ) : ℤ) := by omega
  rw [hexp, zpow_neg, zpow_natCast]
  push_cast
  field_simp

theorem toFloat32_whole {n : ℕ} (h₀ : n ≠ 0) (h : n < 2 ^ 24) :
    n.toUInt64.toFloat32 = (isSingle_whole h₀ h).float false := by
  have hlog : n.log2 < 24 := (Nat.log2_lt h₀).mpr h
  have hn : n.toUInt64.toNat = n := by
    rw [Nat.toUInt64, UInt64.toNat_ofNat']
    omega
  have hshift : (0 - binary32.targetExponent (totalExponent n 0)).toNat = 23 - n.log2 := by
    rw [targetExponent_single, totalExponent]
    omega
  have hexp : (0 : Int) - ((23 - n.log2 : ℕ) : Int) = n.log2 - 23 := by omega
  have hs := isSingle_whole h₀ h
  have hround := roundWithAccuracy_eq (.self _ _) hs (represents_exact _) rfl
    hs.targetExponent.ge .positive
  have hnat : UnpackedFloat.ofNat binary32 n =
      .finite .positive (n * 2 ^ (23 - n.log2)) (n.log2 - 23) hs.pos := by
    rw [ofNat_eq_round h₀, round_eq_roundWithAccuracy hshift, hexp]
    exact hround
  rw [UInt64.toFloat32, Float32.Model.ofUInt64, UnpackedFloat.ofUInt64, hn, hnat]
  rfl

theorem five_pow_lt {k : ℕ} (hk : k ≤ 10) : 5 ^ k < 2 ^ 24 :=
  lt_of_le_of_lt (Nat.pow_le_pow_right (by decide) hk) (by decide)

/-- A power of ten as a float: the bits of the power of five, moved up to fill the mantissa. -/
theorem isSingle_powerOfTen {k : ℕ} (hk : k ≤ 10) :
    IsSingle (5 ^ k * 2 ^ (23 - (5 ^ k).log2)) (k + ((5 ^ k).log2 - 23)) := by
  have h := isSingle_whole (Nat.pow_pos (by decide)).ne' (five_pow_lt hk)
  have hlog : (5 ^ k).log2 < 24 :=
    (Nat.log2_lt (Nat.pow_pos (by decide)).ne').mpr (five_pow_lt hk)
  exact ⟨h.pos, h.lt, by omega, by omega, fun _ => h.full (by omega)⟩

theorem powerOfTen_eq {k : ℕ} (hk : k ≤ 10)
    (h : k < Float32.exactlyRepresentablePowersOfTen.size) :
    Float32.exactlyRepresentablePowersOfTen[k] = (isSingle_powerOfTen hk).float false := by
  have hall : ∀ j : Fin 11, Float32.exactlyRepresentablePowersOfTen[Fin.cast rfl j] =
      (isSingle_powerOfTen (Nat.le_of_lt_succ j.isLt)).float false := by
    decide +kernel
  exact hall ⟨k, h⟩

theorem powerOfTen_value {k : ℕ} (hk : k ≤ 10) :
    ((5 ^ k * 2 ^ (23 - (5 ^ k).log2) : ℕ) : ℚ) * 2 ^ ((k : ℤ) + ((5 ^ k).log2 - 23)) =
      10 ^ k := by
  have hlog : (5 ^ k).log2 < 24 :=
    (Nat.log2_lt (Nat.pow_pos (by decide)).ne').mpr (five_pow_lt hk)
  have hten : (10 : ℚ) ^ k = 2 ^ k * (5 ^ k : ℕ) := by
    push_cast
    rw [← mul_pow]
    norm_num
  rw [zpow_add₀ two_ne_zero, mul_left_comm, whole_value hlog, zpow_natCast, hten]

theorem unpack_float {m : ℕ} {e : ℤ} (h : IsSingle m e) :
    (h.float false).toModel.unpack = .finite .positive m e h.pos := h.unpack_pack .positive

section

variable {v : ℚ} {m : ℕ} {e : ℤ} (hv : RoundsTo v m e) (hm : IsSingle m e)
include hv

/-- The short cut: both the digits and the power of ten are floats. -/
theorem ofScientific_small {n k : ℕ} (h₀ : n ≠ 0) (hn : n < 2 ^ 23) (hk : k ≤ 10) {negative : Bool}
    (hvalue : (if negative then (n : ℚ) / 10 ^ k else n * 10 ^ k) = v) :
    Float32.ofScientific n negative k = hm.float false := by
  have hlt : n < 2 ^ 24 := by omega
  have hs := isSingle_whole h₀ hlt
  have ht := isSingle_powerOfTen hk
  have hdigits := whole_value ((Nat.log2_lt h₀).mpr hlt)
  have hpower := powerOfTen_value hk
  rw [Float32.ofScientific, dif_pos ⟨hn, hk⟩, toFloat32_whole h₀ hlt, powerOfTen_eq hk]
  cases negative with
  | true =>
    have hdiv := div_eq hv hm hs.pos ht.pos (by rw [hdigits, hpower]; exact hvalue)
    show Float32.ofModel (.pack (UnpackedFloat.div binary32 (hs.float false).toModel.unpack
      (ht.float false).toModel.unpack)) = _
    rw [unpack_float, unpack_float, hdiv]
    rfl
  | false =>
    have hfull : 2 ^ 23 ≤ n * 2 ^ (23 - n.log2) :=
      ((Nat.log2_eq_iff hs.pos.ne').mp (log2_mul_fill h₀ hlt)).1
    have hmul := mul_eq hv hm hs.pos ht.pos
      (hfull.trans (Nat.le_mul_of_pos_right _ ht.pos)) (by rw [hdigits, hpower]; exact hvalue)
    show Float32.ofModel (.pack (UnpackedFloat.mul binary32 (hs.float false).toModel.unpack
      (ht.float false).toModel.unpack)) = _
    rw [unpack_float, unpack_float, hmul]
    rfl

/-- The whole way, which refuses numbers that are far too large or too small. -/
theorem ofScientific_model {n : ℕ} {k : ℤ} (h₀ : n ≠ 0) (hvalue : (n : ℚ) * 10 ^ k = v) :
    UnpackedFloat.ofScientific binary32 n k = .finite .positive m e hm.pos := by
  have hpos := hv.pos hm
  have hhigh := hv.lt_high hm
  have hlow := hm.low
  have htop := hm.high
  have hn : (1 : ℚ) ≤ n := by exact_mod_cast Nat.one_le_iff_ne_zero.mpr h₀
  have hnotlarge : ¬k > 2 ^ binary32.exponentBits := by
    intro hk
    have hk' : (256 : ℤ) ≤ k := hk.le
    have hten : (2 : ℚ) ^ k ≤ 10 ^ k :=
      zpow_le_zpow_left₀ (by omega) two_pos.le (by norm_num)
    have hlt : (2 : ℚ) ^ k < 2 ^ (e + 24) := by
      have := zpow_pos (by norm_num : (0 : ℚ) < 10) k
      nlinarith
    have := lt_of_two_zpow_lt hlt
    omega
  have hnotsmall : ¬k < -((2 ^ binary32.exponentBits : ℤ) + n.log2) := by
    intro hk
    have hk' : k < -(256 + (n.log2 : ℤ)) := hk
    have hten : (10 : ℚ) ^ k ≤ 2 ^ k := by
      obtain ⟨j, rfl⟩ : ∃ j : ℕ, k = -j := ⟨(-k).toNat, by omega⟩
      rw [zpow_neg, zpow_neg, zpow_natCast, zpow_natCast]
      exact inv_anti₀ (pow_pos two_pos j) (pow_le_pow_left₀ two_pos.le (by norm_num) j)
    have hlog : (n : ℚ) < 2 ^ ((n.log2 + 1 : ℕ) : ℤ) := by exact_mod_cast Nat.lt_log2_self
    have hlt : (2 : ℚ) ^ (e - 1) < 2 ^ (((n.log2 + 1 : ℕ) : ℤ) + k) := by
      rw [zpow_add₀ two_ne_zero]
      have := two_zpow_pos k
      have := two_zpow_pos ((n.log2 + 1 : ℕ) : ℤ)
      nlinarith
    have := lt_of_two_zpow_lt hlt
    omega
  rw [UnpackedFloat.ofScientific, dif_neg h₀, if_neg hnotlarge, if_neg hnotsmall]
  by_cases hk : 0 ≤ k
  · rw [if_pos hk]
    have hten : 0 < 10 ^ k.toNat := Nat.pow_pos (by decide)
    have hshift : 2 ^ 23 ≤ n <<< mantissaBits binary32 * 10 ^ k.toNat := by
      rw [Nat.shiftLeft_eq]
      have h₁ : 2 ^ 24 ≤ n * 2 ^ mantissaBits binary32 :=
        Nat.le_mul_of_pos_left _ (Nat.pos_of_ne_zero h₀)
      have h₂ := Nat.le_mul_of_pos_right (n * 2 ^ mantissaBits binary32) hten
      omega
    refine mul_eq hv hm _ _ hshift ?_
    obtain ⟨j, rfl⟩ : ∃ j : ℕ, k = j := ⟨k.toNat, by omega⟩
    have hbits : (2 : ℚ) ^ (-(mantissaBits binary32 : ℤ)) = (2 ^ 24)⁻¹ := by
      norm_num [mantissaBits_single]
    rw [← hvalue, Nat.shiftLeft_eq, hbits, zpow_zero, zpow_natCast, Int.toNat_natCast]
    push_cast [mantissaBits_single]
    ring
  · rw [if_neg hk]
    refine div_eq hv hm _ _ ?_
    obtain ⟨j, rfl⟩ : ∃ j : ℕ, k = -j := ⟨(-k).toNat, by omega⟩
    rw [← hvalue, neg_neg, Int.toNat_natCast, zpow_zero, zpow_neg, zpow_natCast, mul_one, mul_one,
      div_eq_mul_inv]
    push_cast
    rfl

theorem ofScientific_single {n : ℕ} {k : ℤ} (h₀ : n ≠ 0) (hvalue : (n : ℚ) * 10 ^ k = v) :
    Float32.ofScientific n (decide (k < 0)) k.natAbs = hm.float false := by
  by_cases hsmall : n < 2 ^ 23 ∧ k.natAbs ≤ 10
  · refine ofScientific_small hv hm h₀ hsmall.1 hsmall.2 ?_
    rw [← hvalue]
    by_cases hk : k < 0
    · have habs : k = -(k.natAbs : ℤ) := by omega
      conv_rhs => rw [habs]
      rw [decide_eq_true hk, if_pos rfl, zpow_neg, zpow_natCast, div_eq_mul_inv]
    · have habs : k = (k.natAbs : ℤ) := by omega
      conv_rhs => rw [habs]
      rw [decide_eq_false hk, zpow_natCast]
      rfl
  · have hsign : (if decide (k < 0) then Int.negOfNat k.natAbs else Int.ofNat k.natAbs) = k := by
      by_cases hk : k < 0
      · rw [if_pos (decide_eq_true hk), Int.negOfNat_eq]
        show -(k.natAbs : ℤ) = k
        omega
      · rw [if_neg (by simpa using hk)]
        show (k.natAbs : ℤ) = k
        omega
    rw [Float32.ofScientific, dif_neg hsmall]
    dsimp only
    rw [hsign, Float32.Model.ofScientific, ofScientific_model hv hm h₀ hvalue]
    rfl

end

/-- The size of a number as it is written. -/
def Numeral.size (n : Numeral) : ℚ := n.digits * 10 ^ n.exponent

theorem Numeral.size_lt (n : Numeral) : n.size < 10 ^ n.magnitude := by
  have hlt : (n.digits : ℚ) < 10 ^ (((Nat.toDigits 10 n.digits).length : ℕ) : ℤ) := by
    rw [zpow_natCast]
    exact_mod_cast (Nat.length_toDigits_le_iff (by decide) Nat.length_toDigits_pos).mp le_rfl
  have hp := zpow_pos (by norm_num : (0 : ℚ) < 10) n.exponent
  rw [size, magnitude, zpow_add₀ (by norm_num)]
  nlinarith

theorem Numeral.le_size (n : Numeral) (h : n.digits ≠ 0) : 10 ^ (n.magnitude - 1) ≤ n.size := by
  have hle : (10 : ℚ) ^ (((Nat.toDigits 10 n.digits).length : ℤ) - 1) ≤ n.digits := by
    obtain ⟨k, hk⟩ : ∃ k, (Nat.toDigits 10 n.digits).length = k + 1 :=
      ⟨_, (Nat.succ_pred_eq_of_pos Nat.length_toDigits_pos).symm⟩
    have hten : 10 ^ k ≤ n.digits := by
      by_cases hk₀ : k = 0
      · rw [hk₀, Nat.pow_zero]
        exact Nat.one_le_iff_ne_zero.mpr h
      · by_contra hlt
        have hle := (Nat.length_toDigits_le_iff (by decide) (Nat.pos_of_ne_zero hk₀)).mpr
          (Nat.lt_of_not_le hlt)
        omega
    rw [hk, Nat.cast_add, Nat.cast_one, add_sub_cancel_right, zpow_natCast]
    exact_mod_cast hten
  have hp := zpow_pos (by norm_num : (0 : ℚ) < 10) n.exponent
  have hexp : n.magnitude - 1 = ((Nat.toDigits 10 n.digits).length : ℤ) - 1 + n.exponent := by
    rw [magnitude]
    omega
  rw [size, hexp, zpow_add₀ (by norm_num)]
  nlinarith

/-- A written number is read as the float that it is nearest to. -/
theorem Numeral.toFloat32_eq {n : Numeral} {m : ℕ} {e : ℤ} (hv : RoundsTo n.size m e)
    (hm : IsSingle m e) : n.toFloat32 = hm.float n.negative := by
  have hpos := hv.pos hm
  have hhigh := hv.lt_high hm
  have hlow := hm.low
  have htop := hm.high
  have h₀ : n.digits ≠ 0 := by
    intro hzero
    have := two_zpow_pos (e - 1)
    rw [size, hzero, Nat.cast_zero, zero_mul] at hpos
    linarith
  -- The limits on the magnitude are far away from the range of floats.
  have hnotsmall : ¬n.magnitude < -60 := by
    intro hlt
    have h₁ : (10 : ℚ) ^ n.magnitude ≤ 10 ^ (-61 : ℤ) :=
      zpow_le_zpow_right₀ (by norm_num) (by omega)
    have h₂ : (2 : ℚ) ^ (-150 : ℤ) ≤ 2 ^ (e - 1) := zpow_le_zpow_right₀ one_le_two (by omega)
    have h₃ : (10 : ℚ) ^ (-61 : ℤ) < 2 ^ (-150 : ℤ) := by norm_num
    linarith [n.size_lt]
  have hnotlarge : ¬60 < n.magnitude := by
    intro hlt
    have h₁ : (10 : ℚ) ^ (60 : ℤ) ≤ 10 ^ (n.magnitude - 1) :=
      zpow_le_zpow_right₀ (by norm_num) (by omega)
    have h₂ : (2 : ℚ) ^ (e + 24) ≤ 2 ^ (128 : ℤ) := zpow_le_zpow_right₀ one_le_two (by omega)
    have h₃ : (2 : ℚ) ^ (128 : ℤ) < 10 ^ (60 : ℤ) := by norm_num
    linarith [n.le_size h₀]
  have hnot : ¬(n.digits = 0 ∨ n.magnitude < -60) := not_or_intro h₀ hnotsmall
  have hsize := ofScientific_single hv hm h₀ rfl
  simp only [toFloat32, if_neg hnot, if_neg hnotlarge, hsize]
  cases n.negative with
  | true => exact hm.neg_float
  | false => rfl

end ShadingMachine.Number
