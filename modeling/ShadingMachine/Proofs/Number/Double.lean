import Mathlib.Algebra.Order.Field.Power
import Mathlib.Algebra.Order.Ring.Rat
import Mathlib.Data.Rat.Floor
import Mathlib.Tactic.Linarith
import Mathlib.Tactic.Positivity
import ShadingMachine.Proofs.Number.Whole

/-! The number that a double is, read off its bits, and when it is a whole one. -/
namespace ShadingMachine.Number

open Float.Model Float.Model.UnpackedFloat Format

def value? : UnpackedFloat → Option ℚ
  | .finite sign mantissa exponent _ => some (sign.apply mantissa * 2 ^ exponent)
  | .zero _ => some 0
  | .infinity _ | .notANumber => none

@[simp] theorem value?_zero (s : Sign) : value? (.zero s) = some 0 := rfl

theorem value?_finite (s : Sign) {m : ℕ} (e : ℤ) (h : 0 < m) :
    value? (.finite s m e h) = some ((s.apply m : ℚ) * 2 ^ e) := rfl

/-- The number that a double is, if it is finite. -/
def valueOf? (x : Float) : Option ℚ := value? x.toModel.unpack

section Fields
variable (b : BitVec binary64.numBits)

theorem toNat_unpackExponent : (unpackExponent b).toNat = b.toNat / 2 ^ 52 % 2 ^ 11 := by
  rw [unpackExponent, BitVec.toNat_cast, BitVec.extractLsb_toNat, Nat.shiftRight_eq_div_pow]
  rfl

theorem toNat_unpackMantissa : (unpackMantissa b).toNat = b.toNat % 2 ^ 52 := by
  rw [unpackMantissa, BitVec.toNat_cast, BitVec.extractLsb_toNat]
  rfl

theorem ofBitVec_unpackSign :
    Sign.ofBitVec (unpackSign b) = if 2 ^ 63 ≤ b.toNat then .negative else .positive := by
  have hlt : b.toNat < 2 ^ 64 := b.isLt
  have hsign : (unpackSign b).toNat = b.toNat / 2 ^ 63 % 2 := by
    unfold unpackSign
    rw [BitVec.toNat_cast, BitVec.extractLsb_toNat, Nat.shiftRight_eq_div_pow]
    rfl
  have hzero : unpackSign b = 0#1 ↔ b.toNat < 2 ^ 63 := by
    rw [← BitVec.toNat_inj, hsign]
    show _ = 0 ↔ _
    omega
  rw [Sign.ofBitVec, if_congr hzero rfl rfl]
  split <;> split <;> first | rfl | omega

end Fields

/-! The parts that the bits of a double hold -/

def exponentField (x : Float) : ℕ := x.toBits.toNat / 2 ^ 52 % 2 ^ 11

def fractionField (x : Float) : ℕ := x.toBits.toNat % 2 ^ 52

def signField (x : Float) : Sign := if 2 ^ 63 ≤ x.toBits.toNat then .negative else .positive

def mantissaOf (x : Float) : ℕ :=
  if exponentField x = 0 then fractionField x else 2 ^ 52 + fractionField x

def exponentOf (x : Float) : ℤ := if exponentField x = 0 then -1074 else exponentField x - 1075

theorem valueOf?_eq (x : Float) : valueOf? x =
    if exponentField x = 2047 then none
    else some (((signField x).apply (mantissaOf x) : ℚ) * 2 ^ exponentOf x) := by
  let b : BitVec binary64.numBits := x.toModel.toBits.toBitVec
  have hexponent : (unpackExponent b).toNat = exponentField x := toNat_unpackExponent b
  have hfraction : (unpackMantissa b).toNat = fractionField x := toNat_unpackMantissa b
  have hsign : Sign.ofBitVec (unpackSign b) = signField x := ofBitVec_unpackSign b
  have hunpack : x.toModel.unpack = UnpackedFloat.unpack binary64 b := rfl
  have htop : unpackExponent b = -1#11 ↔ exponentField x = 2047 := by
    rw [← BitVec.toNat_inj, hexponent]
    rfl
  have hbottom : unpackExponent b = 0#11 ↔ exponentField x = 0 := by
    rw [← BitVec.toNat_inj, hexponent]
    rfl
  have hzero : unpackMantissa b = 0#52 ↔ fractionField x = 0 := by
    rw [← BitVec.toNat_inj, hfraction]
    rfl
  rw [valueOf?, hunpack]
  unfold UnpackedFloat.unpack
  dsimp only
  rw [hsign, hexponent, if_congr htop rfl rfl, if_congr hbottom rfl rfl]
  by_cases h₁ : exponentField x = 2047
  · rw [if_pos h₁, if_pos h₁]
    split <;> rfl
  rw [if_neg h₁, if_neg h₁, mantissaOf, exponentOf]
  by_cases h₂ : exponentField x = 0
  · rw [if_pos h₂, if_pos h₂, if_pos h₂]
    by_cases h₃ : fractionField x = 0
    · rw [dif_pos (hzero.mpr h₃), h₃]
      cases signField x <;> simp [Sign.apply]
    · rw [dif_neg (mt hzero.mp h₃), value?_finite, hfraction, h₂]
      rfl
  · have hfull : (1#1 ++ unpackMantissa b).toNat = 2 ^ 52 + fractionField x := by
      rw [BitVec.toNat_append, ← Nat.shiftLeft_add_eq_or_of_lt (unpackMantissa b).isLt, hfraction]
      rfl
    rw [if_neg h₂, if_neg h₂, if_neg h₂, value?_finite, hfull]
    rfl

theorem wholeOf?_eq (x : Float) : wholeOf? x =
    if exponentField x = 2047 then none
    else if mantissaOf x = 0 then some 0
    else if 2 ^ 63 ≤ x.toBits.toNat then none
    else if 0 ≤ exponentOf x then some (mantissaOf x <<< (exponentOf x).toNat)
    else if mantissaOf x % 1 <<< (-exponentOf x).toNat = 0 then
      some (mantissaOf x / 1 <<< (-exponentOf x).toNat)
    else none := rfl

/-- A natural number is read off a double exactly if the double is that number. -/
theorem wholeOf?_eq_some {x : Float} {k : ℕ} : wholeOf? x = some k ↔ valueOf? x = some (k : ℚ) := by
  rw [wholeOf?_eq, valueOf?_eq, signField]
  generalize mantissaOf x = m
  generalize exponentOf x = e
  by_cases htop : exponentField x = 2047
  · simp [htop]
  rw [if_neg htop, if_neg htop, Option.some_inj]
  by_cases hm : m = 0
  · have hvalue (s : Sign) : (s.apply m : ℚ) * 2 ^ e = 0 := by
      cases s <;> simp [Sign.apply, hm]
    rw [if_pos hm, hvalue, Option.some_inj, eq_comm, eq_comm (a := (0 : ℚ)), Nat.cast_eq_zero]
  have hpos : (0 : ℚ) < m * 2 ^ e := by positivity
  rw [if_neg hm]
  by_cases hneg : 2 ^ 63 ≤ x.toBits.toNat
  · rw [if_pos hneg, if_pos hneg]
    refine iff_of_false (by simp) fun h => ?_
    have hk : (0 : ℚ) ≤ k := k.cast_nonneg
    simp [Sign.apply] at h
    linarith
  rw [if_neg hneg, if_neg hneg]
  show _ ↔ ((m : ℤ) : ℚ) * 2 ^ e = k
  rw [Int.cast_natCast]
  by_cases he : 0 ≤ e
  · obtain ⟨j, rfl⟩ := Int.eq_ofNat_of_zero_le he
    rw [if_pos he, Option.some_inj, Nat.shiftLeft_eq, Int.toNat_natCast, zpow_natCast]
    norm_cast
  · obtain ⟨j, rfl⟩ : ∃ j : ℕ, e = -j := ⟨(-e).toNat, by omega⟩
    have hj : 0 < 2 ^ j := Nat.two_pow_pos j
    rw [if_neg he, neg_neg, Int.toNat_natCast, Nat.one_shiftLeft, zpow_neg, zpow_natCast,
      ← div_eq_mul_inv, div_eq_iff (by positivity)]
    norm_cast
    rw [Option.ite_none_right_eq_some, Option.some_inj]
    constructor
    · rintro ⟨hmod, rfl⟩
      exact (Nat.div_mul_cancel (Nat.dvd_of_mod_eq_zero hmod)).symm
    · rintro rfl
      exact ⟨Nat.mul_mod_left .., Nat.mul_div_cancel _ hj⟩

/-! No number that is written out is read as none -/

theorem isNaN_unpack {b : BitVec binary64.numBits}
    (h : unpackExponent b = -1#11 → unpackMantissa b = 0#52) :
    (UnpackedFloat.unpack binary64 b).isNaN = false := by
  unfold UnpackedFloat.unpack
  dsimp only
  by_cases hone : unpackExponent b = -1#11
  · rw [if_pos hone, if_pos (h hone)]
    rfl
  rw [if_neg hone]
  by_cases hzero : unpackExponent b = 0#11
  · rw [if_pos hzero]
    by_cases hm : unpackMantissa b = 0#52
    · rw [dif_pos hm]
      rfl
    · rw [dif_neg hm]
      rfl
  · rw [if_neg hzero]
    rfl

theorem isNaN_unpack_pack {f : UnpackedFloat} (h : f.isNaN = false) :
    (Float.Model.pack f).unpack.isNaN = false := by
  show (UnpackedFloat.unpack binary64 (UnpackedFloat.pack binary64 f)).isNaN = false
  refine isNaN_unpack ?_
  fun_cases UnpackedFloat.pack binary64 f with
  | case1 => cases h
  | case2 s | case4 s => simp [packedInfinity]
  | case3 s => simp [packedZero]
  | case5 s m e hm bits biasedExponent hhigh hfull =>
    intro htop
    rw [unpackExponent_packComponents, ← BitVec.toNat_inj, BitVec.toNat_ofNat] at htop
    have hmod : biasedExponent % 2 ^ 11 = 2047 := htop
    have hlow : ¬2 ^ 11 ≤ biasedExponent + 1 := hhigh
    omega
  | case6 s m e hm bits biasedExponent hhigh hfull => simp

theorem isNaN_roundWithAccuracy (s : Sign) (m : ℕ) (e : ℤ) (accuracy : Accuracy) :
    (roundWithAccuracy binary64 s m e accuracy).isNaN = false := by
  rw [roundWithAccuracy]
  exact (apply_dite UnpackedFloat.isNaN _ _ _).trans (ite_self _)

theorem isNaN_ofNat (n : ℕ) : (UnpackedFloat.ofNat binary64 n).isNaN = false := by
  rw [UnpackedFloat.ofNat, UnpackedFloat.ofInt, UnpackedFloat.normalize]
  split
  · exact isNaN_roundWithAccuracy ..
  · rfl
  · exact isNaN_roundWithAccuracy ..

section
variable {f : UnpackedFloat} (h : f.isNaN = false) {s : Sign} {m : ℕ} {e : ℤ} (hm : 0 < m)
include h

theorem isNaN_mul : (UnpackedFloat.mul binary64 f (.finite s m e hm)).isNaN = false := by
  cases f with
  | notANumber => cases h
  | infinity | zero => rfl
  | finite => exact isNaN_roundWithAccuracy ..

theorem isNaN_div : (UnpackedFloat.div binary64 f (.finite s m e hm)).isNaN = false := by
  cases f with
  | notANumber => cases h
  | infinity | zero => rfl
  | finite => exact isNaN_roundWithAccuracy ..

end

theorem isNaN_ofScientific_model (m : ℕ) (e : ℤ) :
    (UnpackedFloat.ofScientific binary64 m e).isNaN = false := by
  fun_cases UnpackedFloat.ofScientific binary64 m e with
  | case1 | case2 | case3 => rfl
  | case4 => exact isNaN_mul rfl _
  | case5 => exact isNaN_div rfl _

/-- The powers of ten are finite, and none is zero. -/
theorem exists_powerOfTen {k : ℕ} (h : k < Float.exactlyRepresentablePowersOfTen.size) :
    ∃ (s : Sign) (m : ℕ) (e : ℤ) (hm : 0 < m),
      Float.exactlyRepresentablePowersOfTen[k].toModel.unpack = .finite s m e hm := by
  have hall : ∀ k : Fin 23, (Float.exactlyRepresentablePowersOfTen[k].toModel.unpack matches
      .finite ..) = true := by
    decide +kernel
  have hk : (Float.exactlyRepresentablePowersOfTen[k].toModel.unpack matches .finite ..) = true :=
    hall ⟨k, h⟩
  cases hu : Float.exactlyRepresentablePowersOfTen[k].toModel.unpack with
  | finite s m e hm => exact ⟨s, m, e, hm, rfl⟩
  | notANumber | infinity | zero =>
    rw [hu] at hk
    cases hk

theorem isNaN_ofScientific (m : ℕ) (negative : Bool) (k : ℕ) :
    (Float.ofScientific m negative k).isNaN = false := by
  rw [Float.ofScientific]
  split
  · obtain ⟨s, m', e, hm', hten⟩ := exists_powerOfTen (k := k) (by
      simp [Float.exactlyRepresentablePowersOfTen]
      omega)
    have hwhole : m.toUInt64.toFloat.toModel.unpack.isNaN = false :=
      isNaN_unpack_pack (isNaN_ofNat m.toUInt64.toNat)
    dsimp only
    split
    · refine isNaN_unpack_pack ?_
      rw [hten]
      exact isNaN_div hwhole hm'
    · refine isNaN_unpack_pack ?_
      rw [hten]
      exact isNaN_mul hwhole hm'
  · exact isNaN_unpack_pack (isNaN_ofScientific_model m _)

theorem isNaN_neg {x : Float} (h : x.isNaN = false) : (-x).isNaN = false := by
  have hneg : x.toModel.unpack.neg.isNaN = false := by
    have hx : x.toModel.unpack.isNaN = false := h
    cases hu : x.toModel.unpack with
    | notANumber =>
      rw [hu] at hx
      cases hx
    | infinity | zero | finite => rfl
  exact isNaN_unpack_pack hneg

theorem Numeral.isNaN_toFloat (n : Numeral) : n.toFloat.isNaN = false := by
  have hsize : ∀ size : Float, size.isNaN = false →
      (if n.negative then -size else size).isNaN = false := by
    intro size h
    split
    · exact isNaN_neg h
    · exact h
  refine hsize _ ?_
  split
  · decide +kernel
  · split
    · decide +kernel
    · exact isNaN_ofScientific ..

/-! Labels -/

/-- The double is no label: it is infinite, or a number that is negative, fractional or too large. -/
def IsNoLabel (x : Float) : Prop :=
  x.isInf = true ∨ ∃ v, valueOf? x = some v ∧ (v < 0 ∨ Int.fract v ≠ 0 ∨ 2 ^ 32 - 1 < v)

theorem valueOf?_eq_none {x : Float} (h : x.isNaN = false) :
    valueOf? x = none ↔ x.isInf = true := by
  have hnan : x.toModel.unpack.isNaN = false := h
  show value? x.toModel.unpack = none ↔ x.toModel.unpack.isInf = true
  cases hu : x.toModel.unpack with
  | notANumber =>
    rw [hu] at hnan
    cases hnan
  | infinity => exact iff_of_true rfl rfl
  | zero | finite => exact iff_of_false nofun nofun

/-- The natural numbers below the bound are left. -/
theorem not_isNoLabel_iff {x : Float} (h : x.isNaN = false) :
    ¬IsNoLabel x ↔ ∃ k : ℕ, k < 2 ^ 32 ∧ valueOf? x = some (k : ℚ) := by
  cases hv : valueOf? x with
  | none =>
    refine iff_of_false (not_not.mpr (.inl ((valueOf?_eq_none h).mp hv))) ?_
    rintro ⟨k, -, hk⟩
    cases hk
  | some v =>
    have hfinite : ¬x.isInf = true := by
      rw [← valueOf?_eq_none h, hv]
      nofun
    have hlabel : IsNoLabel x ↔ v < 0 ∨ Int.fract v ≠ 0 ∨ 2 ^ 32 - 1 < v := by
      simp [IsNoLabel, hfinite, hv]
    rw [hlabel, not_or, not_or, not_lt, not_not, not_lt]
    constructor
    · rintro ⟨hnonneg, hwhole, hle⟩
      obtain ⟨z, rfl⟩ := Int.fract_eq_zero_iff.mp hwhole
      obtain ⟨k, rfl⟩ := Int.eq_ofNat_of_zero_le (Int.cast_nonneg_iff.mp hnonneg)
      rw [Int.cast_natCast] at hle
      have hlt : (k : ℚ) < 2 ^ 32 := hle.trans_lt (sub_one_lt _)
      exact ⟨k, by exact_mod_cast hlt, rfl⟩
    · rintro ⟨k, hk, hvalue⟩
      obtain rfl := Option.some.inj hvalue
      have hle : (k : ℚ) + 1 ≤ 2 ^ 32 := by exact_mod_cast hk
      exact ⟨k.cast_nonneg, Int.fract_natCast k, le_sub_iff_add_le.mpr hle⟩

end ShadingMachine.Number
