import Mathlib.Algebra.Group.Int.Defs
import Mathlib.Algebra.Group.Nat.Defs
import ShadingMachine.Number.Numeral

/-! Whole numbers as doubles. Below `2 ^ 53` nothing is rounded: the bits move up to fill the
mantissa, and moving them back gives the number. -/
namespace ShadingMachine.Number

open Float.Model Float.Model.UnpackedFloat Format

theorem log2_mul_two_pow {m : Nat} (hm : m ≠ 0) (j : Nat) : (m * 2 ^ j).log2 = m.log2 + j := by
  have h₁ := Nat.log2_self_le hm
  have h₂ : m < 2 ^ (m.log2 + 1) := Nat.lt_log2_self
  have hj : 0 < 2 ^ j := Nat.two_pow_pos j
  refine (Nat.log2_eq_iff (Nat.mul_ne_zero hm (Nat.ne_of_gt hj))).mpr ⟨?_, ?_⟩
  · rw [Nat.pow_add]
    exact Nat.mul_le_mul_right _ h₁
  · rw [Nat.add_right_comm, Nat.pow_add]
    exact Nat.mul_lt_mul_of_pos_right h₂ hj

/-- A mantissa whose last bits are zero loses nothing when they are shifted out. -/
theorem shiftRight_mul_two_pow (m j : Nat) :
    (⟨m * 2 ^ j, false, false⟩ : ExtendedMantissa) >>> j = ⟨m, false, false⟩ := by
  induction j generalizing m with
  | zero => rw [Nat.pow_zero, Nat.mul_one]; rfl
  | succ j ih =>
    have h : m * 2 ^ (j + 1) = m * 2 * 2 ^ j := by
      rw [Nat.pow_succ, Nat.mul_comm (2 ^ j), Nat.mul_assoc]
    have hs : (⟨m * 2 ^ (j + 1), false, false⟩ : ExtendedMantissa) >>> (j + 1) =
        ((⟨m * 2 ^ (j + 1), false, false⟩ : ExtendedMantissa) >>> j).shiftRightOne := rfl
    rw [hs, h, ih]
    simp [ExtendedMantissa.shiftRightOne]

theorem mantissaBits_double : mantissaBits binary64 = 53 := rfl

/-- The exponent of the last place of a double of that size. -/
theorem targetExponent_double (t : Int) : binary64.targetExponent t = max (t - 53) (-1074) := rfl

@[simp] theorem unpackSign_packComponents {spec : Format} {sign exponent mantissa} :
    unpackSign (packComponents spec sign exponent mantissa) = sign.toBitVec := by
  ext i hi
  obtain rfl : i = 0 := by omega
  unfold unpackSign
  simp [packComponents, BitVec.getLsbD_append, BitVec.getElem_append]

theorem ofBitVec_toBitVec (s : Sign) : Sign.ofBitVec s.toBitVec = s := by cases s <;> rfl

theorem finite_congr {s : Sign} {m m' : Nat} {e e' : Int} (hm : m = m') (he : e = e')
    (h : 0 < m) (h' : 0 < m') :
    UnpackedFloat.finite s m e h = .finite s m' e' h' := by
  subst hm he
  rfl

section Unpacking
variable {spec : Format} {s : Sign} {m : Nat} {e : Int}
  {mantissa : BitVec spec.mantissaBitsWithoutImplicit}

/-- The least exponent goes with a mantissa that has no first bit. -/
theorem unpack_subnormal (h₀ : mantissa ≠ 0#_) (hm : mantissa.toNat = m)
    (he : 1 - ((spec.exponentBias : Int) + spec.mantissaBitsWithoutImplicit) = e) (h : 0 < m) :
    UnpackedFloat.unpack spec (packComponents spec s 0#_ mantissa) = .finite s m e h := by
  have hone : (0#_ : BitVec spec.exponentBits) ≠ -1#_ := by
    rw [ne_eq, BitVec.zero_eq_neg_one_iff]
    exact Nat.ne_of_gt spec.he
  have hmantissa : @unpackMantissa spec (packComponents spec s 0#_ mantissa) = mantissa :=
    unpackMantissa_packComponents
  unfold UnpackedFloat.unpack
  dsimp only
  rw [unpackExponent_packComponents, unpackSign_packComponents, ofBitVec_toBitVec, if_neg hone,
    if_pos rfl, dif_neg (by rwa [hmantissa])]
  refine finite_congr (by rwa [hmantissa]) ?_ _ _
  rw [← he, BitVec.toNat_zero]
  omega

theorem unpack_normal {exponent : BitVec spec.exponentBits} (hone : exponent ≠ -1#_)
    (hzero : exponent ≠ 0#_) (hm : (1#1 ++ mantissa).toNat = m)
    (he : (exponent.toNat : Int) - (spec.exponentBias + spec.mantissaBitsWithoutImplicit) = e)
    (h : 0 < m) :
    UnpackedFloat.unpack spec (packComponents spec s exponent mantissa) = .finite s m e h := by
  unfold UnpackedFloat.unpack
  dsimp only
  rw [unpackExponent_packComponents, unpackSign_packComponents, ofBitVec_toBitVec, if_neg hone,
    if_neg hzero]
  exact finite_congr (by rwa [unpackMantissa_packComponents]) he _ _

end Unpacking

section Rounding
variable {spec : Format} {s : Sign} {n m j : Nat} {e₀ e₁ e : Int}

/-- A mantissa is rounded once, and once more where the first time carries into another bit. -/
theorem roundWithAccuracy_eq_finite {accuracy : Accuracy} {em : ExtendedMantissa}
    (hfirst : shiftToTargetExponent spec n e₀ accuracy = (em, e₁))
    (hlast : shiftToTargetExponent spec em.roundedMantissa e₁ .exact = (⟨m, false, false⟩, e))
    (h : 0 < m) : UnpackedFloat.roundWithAccuracy spec s n e₀ accuracy = .finite s m e h := by
  have hmantissa : (shiftToTargetExponent spec em.roundedMantissa e₁ .exact).1.mantissa = m := by
    rw [hlast]
  unfold UnpackedFloat.roundWithAccuracy
  rw [hfirst]
  dsimp only
  rw [dif_neg (by rw [hmantissa]; exact Nat.ne_of_gt h)]
  exact finite_congr hmantissa (by rw [hlast]) _ _

theorem round_eq_roundWithAccuracy
    (hj : (e₀ - spec.targetExponent (totalExponent n e₀)).toNat = j) :
    UnpackedFloat.round spec s n e₀ =
      UnpackedFloat.roundWithAccuracy spec s (n * 2 ^ j) (e₀ - j) .exact := by
  unfold UnpackedFloat.round decreaseExponent
  dsimp only
  rw [hj, Nat.shiftLeft_eq]

theorem ofNat_eq_round (h₀ : n ≠ 0) :
    UnpackedFloat.ofNat spec n = UnpackedFloat.round spec .positive n 0 := by
  have hcmp : compare (n : Int) 0 = .gt := by
    rw [Int.compare_eq_gt]
    omega
  unfold UnpackedFloat.ofNat UnpackedFloat.ofInt UnpackedFloat.normalize
  rw [hcmp]
  rfl

end Rounding

/-- The mantissa of a normal double fills its 53 bits. -/
structure IsNormal (m : Nat) (e : Int) : Prop where
  log2 : m.log2 = 52
  low : -1074 ≤ e
  high : e ≤ 971

namespace IsNormal

variable {m : Nat} {e : Int}

theorem ne_zero (h : IsNormal m e) : m ≠ 0 := by
  rintro rfl
  have := h.log2
  simp at this

theorem pos (h : IsNormal m e) : 0 < m := Nat.pos_of_ne_zero h.ne_zero

theorem le (h : IsNormal m e) : 2 ^ 52 ≤ m := h.log2 ▸ Nat.log2_self_le h.ne_zero

theorem lt (h : IsNormal m e) : m < 2 ^ 53 := (Nat.log2_lt h.ne_zero).mp (by rw [h.log2]; decide)

theorem targetExponent (h : IsNormal m e) (j : Nat) :
    binary64.targetExponent (totalExponent (m * 2 ^ j) (e - j)) = e := by
  have hl := log2_mul_two_pow h.ne_zero j
  have hlow := h.low
  rw [targetExponent_double, totalExponent, hl, h.log2]
  omega

theorem shiftToTargetExponent (h : IsNormal m e) (j : Nat) :
    UnpackedFloat.shiftToTargetExponent binary64 (m * 2 ^ j) (e - j) .exact =
      (⟨m, false, false⟩, e) := by
  have hj : (e - (e - (j : Int))).toNat = j := by omega
  simp only [UnpackedFloat.shiftToTargetExponent, h.targetExponent, shiftToExponent, hj,
    ExtendedMantissa.ofMantissaAndAccuracy, shiftRight_mul_two_pow]
  congr 1
  omega

theorem roundWithAccuracy (h : IsNormal m e) (s : Sign) (j : Nat) :
    UnpackedFloat.roundWithAccuracy binary64 s (m * 2 ^ j) (e - j) .exact =
      .finite s m e h.pos := by
  have h₀ := h.shiftToTargetExponent 0
  rw [Nat.pow_zero, Nat.mul_one, Int.natCast_zero, Int.sub_zero] at h₀
  have hr : (⟨m, false, false⟩ : ExtendedMantissa).roundedMantissa = m := rfl
  exact roundWithAccuracy_eq_finite (h.shiftToTargetExponent j) (by rw [hr, h₀]) h.pos

/-- The fields of the packed form: a biased exponent and the mantissa without its first bit. -/
theorem pack (h : IsNormal m e) :
    UnpackedFloat.pack binary64 (.finite .positive m e h.pos) =
      packComponents binary64 .positive (BitVec.ofNat 11 (e + 1075).toNat)
        (BitVec.ofNat 52 m) := by
  have hlow := h.low
  have hhigh := h.high
  have hb : e + (exponentBias binary64 : Int) + (52 : Nat) = e + 1075 := by
    simp only [exponentBias]
    omega
  have hfit : ¬2 ^ 11 ≤ (e + 1075).toNat + 1 := by omega
  have hfull : m.log2 + 1 = mantissaBits binary64 := by rw [h.log2, mantissaBits_double]
  unfold UnpackedFloat.pack
  dsimp only
  rw [hb, if_neg hfit, if_pos hfull]

theorem toNat_mantissa (h : IsNormal m e) : (BitVec.ofNat 52 m).toNat = m - 2 ^ 52 := by
  have h₁ := h.le
  have h₂ := h.lt
  rw [BitVec.toNat_ofNat]
  omega

theorem toNat_exponent (h : IsNormal m e) :
    (BitVec.ofNat 11 (e + 1075).toNat).toNat = (e + 1075).toNat := by
  have h₁ := h.low
  have h₂ := h.high
  rw [BitVec.toNat_ofNat]
  omega

theorem unpack_pack (h : IsNormal m e) :
    (Float.Model.pack (.finite .positive m e h.pos)).unpack = .finite .positive m e h.pos := by
  have hlow := h.low
  have hhigh := h.high
  have hexp := h.toNat_exponent
  have hone : BitVec.ofNat 11 (e + 1075).toNat ≠ -1#11 := by
    intro heq
    have := congrArg BitVec.toNat heq
    rw [hexp] at this
    have : (-1#11).toNat = 2047 := by decide
    omega
  have hzero : BitVec.ofNat 11 (e + 1075).toNat ≠ 0#11 := by
    intro heq
    have := congrArg BitVec.toNat heq
    rw [hexp] at this
    have : (0#11).toNat = 0 := by decide
    omega
  have hm : (1#1 ++ BitVec.ofNat 52 m).toNat = m := by
    rw [BitVec.toNat_append, h.toNat_mantissa]
    have := h.le
    have := h.lt
    rw [← Nat.shiftLeft_add_eq_or_of_lt (by omega)]
    simp
    omega
  have hbits : (Float.Model.pack (.finite .positive m e h.pos)).toBits.toBitVec =
      packComponents binary64 .positive (BitVec.ofNat 11 (e + 1075).toNat) (BitVec.ofNat 52 m) :=
    h.pack
  rw [Float.Model.unpack, hbits]
  refine @unpack_normal binary64 .positive m e (.ofNat 52 m) (.ofNat 11 (e + 1075).toNat) hone
    hzero hm ?_ h.pos
  rw [hexp]
  simp only [exponentBias]
  omega

theorem toNat_toBits (h : IsNormal m e) :
    (Float.Model.pack (.finite .positive m e h.pos)).toBits.toNat =
      (e + 1075).toNat * 2 ^ 52 + (m - 2 ^ 52) := by
  have hbits : (Float.Model.pack (.finite .positive m e h.pos)).toBits.toNat =
      (packComponents binary64 .positive (BitVec.ofNat 11 (e + 1075).toNat)
        (BitVec.ofNat 52 m)).toNat := congrArg BitVec.toNat h.pack
  have hlt : m - 2 ^ 52 < 2 ^ 52 := by
    have := h.lt
    omega
  rw [hbits, packComponents, BitVec.toNat_append, BitVec.toNat_append, h.toNat_mantissa,
    h.toNat_exponent, ← Nat.shiftLeft_add_eq_or_of_lt hlt, Nat.shiftLeft_eq]
  simp [Sign.toBitVec]

end IsNormal

/-- A whole number with its bits moved up to fill the mantissa. -/
theorem isNormal_of_lt {n : Nat} (h₀ : n ≠ 0) (h : n < 2 ^ 53) :
    IsNormal (n * 2 ^ (52 - n.log2)) (n.log2 - 52) := by
  have hlog : n.log2 < 53 := (Nat.log2_lt h₀).mpr h
  refine ⟨?_, ?_, ?_⟩
  · rw [log2_mul_two_pow h₀]
    omega
  · omega
  · omega

theorem ofNat_eq_finite {n : Nat} (h₀ : n ≠ 0) (h : n < 2 ^ 53) :
    UnpackedFloat.ofNat binary64 n = .finite .positive (n * 2 ^ (52 - n.log2)) (n.log2 - 52)
      (isNormal_of_lt h₀ h).pos := by
  have hn := isNormal_of_lt h₀ h
  have hlog : n.log2 < 53 := (Nat.log2_lt h₀).mpr h
  have hshift : (0 - binary64.targetExponent (totalExponent n 0)).toNat = 52 - n.log2 := by
    rw [targetExponent_double, totalExponent]
    omega
  have hround := hn.roundWithAccuracy .positive 0
  rw [Nat.pow_zero, Nat.mul_one, Int.natCast_zero, Int.sub_zero] at hround
  have hexp : (0 : Int) - ((52 - n.log2 : Nat) : Int) = n.log2 - 52 := by omega
  rw [ofNat_eq_round h₀, round_eq_roundWithAccuracy hshift, hexp]
  exact hround

/-- Multiplying a normal double by one, that is by `2 ^ 52 * 2 ^ -52`. -/
theorem mul_one_bits {m : Nat} {e : Int} (h : IsNormal m e) :
    (Float.ofModel (.pack (.finite .positive m e h.pos)) * Float.ofBits 0x3FF0000000000000) =
      Float.ofModel (.pack (.finite .positive m e h.pos)) := by
  have hone : IsNormal (2 ^ 52) (-52) := ⟨Nat.log2_two_pow, by decide, by decide⟩
  have hbits : Float.ofBits 0x3FF0000000000000 =
      Float.ofModel (.pack (.finite .positive (2 ^ 52) (-52) (by decide))) := by
    decide +kernel
  have hround := h.roundWithAccuracy .positive 52
  rw [hbits]
  show Float.ofModel (.pack (UnpackedFloat.mul binary64 (Float.Model.pack _).unpack
    (Float.Model.pack _).unpack)) = _
  rw [h.unpack_pack, hone.unpack_pack]
  exact congrArg (Float.ofModel <| Float.Model.pack ·) hround

theorem ofScientific_eq {n : Nat} (h₀ : n ≠ 0) (h : n < 2 ^ 53) :
    Float.ofScientific n false 0 = Float.ofModel (.pack (.finite .positive
      (n * 2 ^ (52 - n.log2)) (n.log2 - 52) (isNormal_of_lt h₀ h).pos)) := by
  have hn : n.toUInt64.toNat = n := by
    rw [Nat.toUInt64, UInt64.toNat_ofNat']
    omega
  have hu : n.toUInt64.toFloat = Float.ofModel (.pack (.finite .positive
      (n * 2 ^ (52 - n.log2)) (n.log2 - 52) (isNormal_of_lt h₀ h).pos)) := by
    rw [UInt64.toFloat, Float.Model.ofUInt64, UnpackedFloat.ofUInt64, hn, ofNat_eq_finite h₀ h]
  have hten : n < 2 ^ 53 ∧ 0 ≤ 22 := ⟨h, by decide⟩
  rw [Float.ofScientific, dif_pos hten, hu]
  exact mul_one_bits (isNormal_of_lt h₀ h)

theorem wholeOf?_finite {m : Nat} {e : Int} (h : IsNormal m e) (he : e ≤ 0) :
    wholeOf? (Float.ofModel (.pack (.finite .positive m e h.pos))) =
      if m % 2 ^ (-e).toNat = 0 then some (m / 2 ^ (-e).toNat) else none := by
  have hle := h.le
  have hlt := h.lt
  have hlow := h.low
  have hbits : (Float.ofModel (.pack (.finite .positive m e h.pos))).toBits.toNat =
      (e + 1075).toNat * 2 ^ 52 + (m - 2 ^ 52) := h.toNat_toBits
  have hexponent : ((e + 1075).toNat * 2 ^ 52 + (m - 2 ^ 52)) / 0x10000000000000 % 0x800 =
      (e + 1075).toNat := by omega
  have hfraction : ((e + 1075).toNat * 2 ^ 52 + (m - 2 ^ 52)) % 0x10000000000000 =
      m - 2 ^ 52 := by omega
  have h₁ : (e + 1075).toNat ≠ 0 := by omega
  have h₂ : (e + 1075).toNat ≠ 2047 := by omega
  have h₃ : 0x10000000000000 + (m - 2 ^ 52) = m := by omega
  have h₄ : ¬0x8000000000000000 ≤ (e + 1075).toNat * 2 ^ 52 + (m - 2 ^ 52) := by omega
  have h₅ : Int.ofNat (e + 1075).toNat - 1075 = e := by
    show (((e + 1075).toNat : Int)) - 1075 = e
    omega
  rw [wholeOf?, hbits]
  simp only [hexponent, hfraction, h₁, h₂, h₃, h₄, h₅, h.ne_zero, if_false]
  by_cases h₀ : 0 ≤ e
  · obtain rfl : e = 0 := by omega
    simp [Nat.mod_one]
  · simp [h₀, Nat.one_shiftLeft]

/-- A double holds every whole number below `2 ^ 53`. -/
theorem wholeOf?_toFloat {n : Nat} (h : n < 2 ^ 53) :
    wholeOf? (⟨false, n, 0⟩ : Numeral).toFloat = some n := by
  by_cases h₀ : n = 0
  · subst h₀
    decide +kernel
  have hdigits : (Nat.toDigits 10 n).length ≤ 16 := by
    rw [Nat.length_toDigits_le_iff (by decide) (by decide)]
    omega
  have hmagnitude : (⟨false, n, 0⟩ : Numeral).magnitude = (Nat.toDigits 10 n).length := by
    simp [Numeral.magnitude]
  have hn := isNormal_of_lt h₀ h
  have hlog : n.log2 < 53 := (Nat.log2_lt h₀).mpr h
  have hfloat : (⟨false, n, 0⟩ : Numeral).toFloat = Float.ofScientific n false 0 := by
    have h₁ : ¬(n = 0 ∨ ((Nat.toDigits 10 n).length : Int) < -400) := by omega
    have h₂ : ¬400 < ((Nat.toDigits 10 n).length : Int) := by omega
    simp only [Numeral.toFloat, hmagnitude, h₁, h₂, if_false]
    rfl
  have hshift : (-((n.log2 : Int) - 52)).toNat = 52 - n.log2 := by omega
  have hpos : 0 < 2 ^ (52 - n.log2) := Nat.two_pow_pos _
  rw [hfloat, ofScientific_eq h₀ h, wholeOf?_finite hn (by omega), hshift, Nat.mul_mod_left,
    if_pos rfl, Nat.mul_div_cancel _ hpos]

end ShadingMachine.Number
