import ShadingMachine.Number.Shortest
import ShadingMachine.Proofs.Number.Whole

/-! Single-precision floats by sign, mantissa and exponent: how the bits hold them. -/
namespace ShadingMachine.Number

open Float.Model Float.Model.UnpackedFloat Format

/-- Mantissa and exponent of a float that is neither zero nor infinite: the mantissa fills its 24
bits, or the exponent is the least one. -/
structure IsSingle (m : Nat) (e : Int) : Prop where
  pos : 0 < m
  lt : m < 2 ^ 24
  low : -149 ≤ e
  high : e ≤ 104
  full : -149 < e → 2 ^ 23 ≤ m

def signOf (negative : Bool) : Sign := if negative then .negative else .positive

/-- The float of a sign, a mantissa and an exponent. -/
def IsSingle.float {m : Nat} {e : Int} (h : IsSingle m e) (negative : Bool) : Float32 :=
  .ofModel (.pack (.finite (signOf negative) m e h.pos))

theorem toNat_packComponents (s : Sign) (e : BitVec 8) (m : BitVec 23) :
    (packComponents binary32 s e m).toNat =
      s.toBitVec.toNat * 2 ^ 31 + e.toNat * 2 ^ 23 + m.toNat := by
  have hm := m.isLt
  have he := e.isLt
  rw [packComponents, BitVec.toNat_append, BitVec.toNat_append, ← Nat.shiftLeft_add_eq_or_of_lt hm,
    ← Nat.shiftLeft_add_eq_or_of_lt he, Nat.shiftLeft_eq, Nat.shiftLeft_eq]
  omega

theorem toNat_signOf (negative : Bool) :
    (signOf negative).toBitVec.toNat = if negative then 1 else 0 := by
  cases negative <;> rfl

theorem log2_eq {m : Nat} (h : 2 ^ 23 ≤ m) (hlt : m < 2 ^ 24) : m.log2 = 23 :=
  (Nat.log2_eq_iff (by omega)).mpr ⟨h, hlt⟩

theorem log2_lt {m : Nat} (hpos : 0 < m) (hlt : m < 2 ^ 23) : m.log2 < 23 :=
  (Nat.log2_lt (by omega)).mpr hlt

theorem mantissaBits_single : mantissaBits binary32 = 24 := rfl

/-- The exponent of the last place of a float of that size. -/
theorem targetExponent_single (t : Int) : binary32.targetExponent t = max (t - 24) (-149) := rfl

namespace IsSingle

variable {m : Nat} {e : Int}

/-- The fields of the packed form; a float with the least exponent may have no first bit. -/
theorem pack (h : IsSingle m e) (s : Sign) :
    UnpackedFloat.pack binary32 (.finite s m e h.pos) =
      packComponents binary32 s (BitVec.ofNat 8 (if m < 2 ^ 23 then 0 else (e + 150).toNat))
        (BitVec.ofNat 23 m) := by
  have hlow := h.low
  have hhigh := h.high
  have hbias : e + (exponentBias binary32 : Int) + (23 : Nat) = e + 150 := by
    simp only [exponentBias]
    omega
  have hfit : ¬2 ^ 8 ≤ (e + 150).toNat + 1 := by omega
  by_cases hm : m < 2 ^ 23
  · have hlog := log2_lt h.pos hm
    have hne : m.log2 + 1 ≠ mantissaBits binary32 := by
      rw [mantissaBits_single]
      omega
    unfold UnpackedFloat.pack
    dsimp only
    rw [hbias, if_neg hfit, if_neg hne, if_pos hm]
  · have hlog := log2_eq (Nat.le_of_not_lt hm) h.lt
    have heq : m.log2 + 1 = mantissaBits binary32 := by rw [hlog, mantissaBits_single]
    unfold UnpackedFloat.pack
    dsimp only
    rw [hbias, if_neg hfit, if_pos heq, if_neg hm]

theorem toNat_toBits (h : IsSingle m e) (negative : Bool) :
    (h.float negative).toBits.toNat =
      (if negative then 1 else 0) * 2 ^ 31 +
        (if m < 2 ^ 23 then 0 else (e + 150).toNat) * 2 ^ 23 + m % 2 ^ 23 := by
  have hbits : (h.float negative).toBits.toNat =
      (UnpackedFloat.pack binary32 (.finite (signOf negative) m e h.pos)).toNat := rfl
  have hlow := h.low
  have hhigh := h.high
  have hmod : (if m < 2 ^ 23 then 0 else (e + 150).toNat) % 2 ^ 8 =
      if m < 2 ^ 23 then 0 else (e + 150).toNat := by
    split <;> omega
  rw [hbits, h.pack, toNat_packComponents, toNat_signOf, BitVec.toNat_ofNat, BitVec.toNat_ofNat,
    hmod]

theorem unpack_pack (h : IsSingle m e) (s : Sign) :
    (Float32.Model.pack (.finite s m e h.pos)).unpack = .finite s m e h.pos := by
  have hlow := h.low
  have hhigh := h.high
  have hlt := h.lt
  have hpos := h.pos
  have hbits : (Float32.Model.pack (.finite s m e h.pos)).toBits.toBitVec =
      packComponents binary32 s (BitVec.ofNat 8 (if m < 2 ^ 23 then 0 else (e + 150).toNat))
        (BitVec.ofNat 23 m) := h.pack s
  rw [Float32.Model.unpack, hbits]
  by_cases hm : m < 2 ^ 23
  · have hnat : (BitVec.ofNat 23 m).toNat = m := by
      rw [BitVec.toNat_ofNat]
      omega
    have hzero : BitVec.ofNat 23 m ≠ 0#23 := by
      intro heq
      have hnil := congrArg BitVec.toNat heq
      rw [hnat] at hnil
      exact absurd hnil (Nat.ne_of_gt hpos)
    rw [if_pos hm]
    refine unpack_subnormal hzero hnat ?_ h.pos
    have hfull := h.full
    simp only [exponentBias]
    omega
  · have hexp : (BitVec.ofNat 8 (e + 150).toNat).toNat = (e + 150).toNat := by
      rw [BitVec.toNat_ofNat]
      omega
    have hone : BitVec.ofNat 8 (e + 150).toNat ≠ -1#8 := by
      intro heq
      have htop := congrArg BitVec.toNat heq
      have hall : (-1#8).toNat = 255 := by decide
      rw [hexp, hall] at htop
      omega
    have hzero : BitVec.ofNat 8 (e + 150).toNat ≠ 0#8 := by
      intro heq
      have hnil := congrArg BitVec.toNat heq
      have hbottom : (0#8).toNat = 0 := by decide
      rw [hexp, hbottom] at hnil
      have hfull := h.full
      omega
    have hfull : (1#1 ++ BitVec.ofNat 23 m).toNat = m := by
      rw [BitVec.toNat_append, ← Nat.shiftLeft_add_eq_or_of_lt (BitVec.ofNat 23 m).isLt,
        BitVec.toNat_ofNat, BitVec.toNat_ofNat, Nat.shiftLeft_eq]
      omega
    rw [if_neg hm]
    refine @unpack_normal binary32 s m e (.ofNat 23 m) (.ofNat 8 (e + 150).toNat) hone hzero hfull
      ?_ h.pos
    rw [hexp]
    simp only [exponentBias]
    omega

theorem neg_float (h : IsSingle m e) : -h.float false = h.float true := by
  show Float32.ofModel (.pack (Float32.Model.pack _).unpack.neg) = _
  rw [h.unpack_pack]
  rfl

end IsSingle

theorem eq_of_toNat_toBits {x y : Float32} (h : x.toBits.toNat = y.toBits.toNat) : x = y := by
  obtain ⟨⟨bits, hbits⟩⟩ := x
  obtain ⟨⟨bits', hbits'⟩⟩ := y
  have heq : bits = bits' := UInt32.toNat_inj.mp h
  subst heq
  rfl

/-- The sign and the magnitude of a float that is not zero are its own. -/
theorem eq_single_of_partsOf {x : Float32} {negative : Bool} {b : Binary}
    (h : partsOf x = .finite negative b) (h₀ : b.mantissa ≠ 0) :
    ∃ hb : IsSingle b.mantissa b.exponent,
      (b.narrow = true ↔ b.mantissa = 2 ^ 23 ∧ -149 < b.exponent) ∧
        x = hb.float negative := by
  have hlt : x.toBits.toNat < 2 ^ 32 := x.toBits.toNat_lt
  unfold partsOf at h
  dsimp only at h
  split at h
  · split at h <;> cases h
  · rename_i htop
    split at h
    · rename_i hbottom
      cases h
      dsimp only at h₀ ⊢
      have hb : IsSingle (x.toBits.toNat % 0x800000) (-149) :=
        ⟨by omega, by omega, by omega, by omega, by omega⟩
      refine ⟨hb, by simp, eq_of_toNat_toBits ?_⟩
      have hsmall : x.toBits.toNat % 0x800000 < 2 ^ 23 := by omega
      rw [hb.toNat_toBits]
      simp only [decide_eq_true_eq, hsmall, if_true]
      split <;> omega
    · rename_i hbottom
      cases h
      dsimp only at h₀ ⊢
      have hexp : (Int.ofNat (x.toBits.toNat / 0x800000 % 0x100) - 150 : Int) =
        (x.toBits.toNat / 0x800000 % 0x100 : Nat) - 150 := rfl
      have hb : IsSingle (0x800000 + x.toBits.toNat % 0x800000)
          (Int.ofNat (x.toBits.toNat / 0x800000 % 0x100) - 150) :=
        ⟨by omega, by omega, by omega, by omega, by omega⟩
      refine ⟨hb, ?_, eq_of_toNat_toBits ?_⟩
      · rw [decide_eq_true_eq]
        omega
      · have hlarge : ¬0x800000 + x.toBits.toNat % 0x800000 < 2 ^ 23 := by omega
        rw [hb.toNat_toBits]
        simp only [decide_eq_true_eq, hlarge, if_false]
        split <;> omega

end ShadingMachine.Number
