import Mathlib.Tactic.FieldSimp
import Mathlib.Tactic.IntervalCases
import Mathlib.Tactic.Linarith
import Mathlib.Tactic.Ring
import ShadingMachine.Proofs.Exact.Rationals
import ShadingMachine.Value.ColorSpace

/-! Colors by hue, over exact rationals. A color that is not grey stands in one of six sectors of the
wheel of hues, between its largest and its smallest channel; the hue tells the sector and the place
in it, and both systems that go by hue find the color there again. -/
namespace ShadingMachine.ColorSpace

/-- The color at a place of a sector. One channel is high, one is low, and the third rises or falls
between them. -/
def wheel (sector : Nat) (place high low : ℚ) : Color ℚ :=
  let rising := low + place * (high - low)
  let falling := high - place * (high - low)
  match sector with
  | 0 => ⟨high, rising, low⟩
  | 1 => ⟨falling, high, low⟩
  | 2 => ⟨low, high, rising⟩
  | 3 => ⟨low, falling, high⟩
  | 4 => ⟨rising, low, high⟩
  | _ => ⟨high, low, falling⟩

theorem largest_rat (c : Color ℚ) : largest c = max (max c.r c.g) c.b := by
  rw [largest, Scalar.larger_rat, Scalar.larger_rat]

theorem smallest_rat (c : Color ℚ) : smallest c = min (min c.r c.g) c.b := by
  rw [smallest, Scalar.smaller_rat, Scalar.smaller_rat]

/-- The hue before it is brought to the range from zero to one, in sixths. -/
def turn (c : Color ℚ) (max delta : ℚ) : ℚ :=
  if max = c.r then (c.g - c.b) / delta
  else if max = c.g then 2 + (c.b - c.r) / delta
  else 4 + (c.r - c.g) / delta

theorem hue_eq (c : Color ℚ) (max : ℚ) {delta : ℚ} (h : delta ≠ 0) :
    hue c max delta =
      if turn c max delta / 6 < 0 then turn c max delta / 6 + 1 else turn c max delta / 6 := by
  have hturn : (if max == c.r then (c.g - c.b) / delta
      else if max == c.g then 2 + (c.b - c.r) / delta
      else 4 + (c.r - c.g) / delta) = turn c max delta := by
    simp only [turn, beq_iff_eq]
  unfold hue
  rw [if_neg (by simpa using h)]
  show (if (if max == c.r then _ else _) / 6 < 0 then _ else _) = _
  rw [← hturn]

section Wheel

variable {k : Nat} {f high low x : ℚ}

theorem turn_wheel (hk : k < 6) (h₁ : f < 1) (h : low < high) :
    turn (wheel k f high low) high (high - low) = if k = 5 then f - 1 else k + f := by
  have hne : high ≠ low := h.ne'
  have hd : high - low ≠ 0 := sub_ne_zero.mpr hne
  have hrising : high ≠ low + f * (high - low) := by nlinarith
  have hfalling : high = high - f * (high - low) ↔ f = 0 := by
    rw [eq_comm, sub_eq_self, mul_eq_zero, or_iff_left hd]
  have hshare (x : ℚ) : x * (high - low) / (high - low) = x := mul_div_cancel_right₀ x hd
  have hup : low + f * (high - low) - low = f * (high - low) := by ring
  have hdown : low - (high - f * (high - low)) = (f - 1) * (high - low) := by ring
  interval_cases k
  · simp [turn, wheel, hup, hshare]
  · by_cases hf : f = 0
    · simp [turn, wheel, hf, hd]
    · simp only [turn, wheel, hfalling, hf, hdown, hshare]
      norm_num
      ring
  · simp [turn, wheel, hne, hup, hshare]
  · by_cases hf : f = 0
    · simp [turn, wheel, hne, hf, hd]
      norm_num
    · simp only [turn, wheel, hne, hfalling, hf, hdown, hshare]
      norm_num
      ring
  · simp [turn, wheel, hne, hrising, hup, hshare]
  · simp [turn, wheel, hdown, hshare]

/-- A color in a sector has the hue of its place there. -/
theorem hue_wheel (hk : k < 6) (h₀ : 0 ≤ f) (h₁ : f < 1) (h : low < high) :
    hue (wheel k f high low) high (high - low) = (k + f) / 6 := by
  have hk₀ : (0 : ℚ) ≤ k := k.cast_nonneg
  rw [hue_eq _ _ (sub_ne_zero.mpr h.ne'), turn_wheel hk h₁ h]
  by_cases hlast : k = 5
  · rw [if_pos hlast, if_pos (by linarith), hlast]
    push_cast
    ring
  · rw [if_neg hlast, if_neg (by linarith)]

theorem rising_eq (h : low < high) : low + (x - low) / (high - low) * (high - low) = x := by
  rw [div_mul_cancel₀ _ (sub_pos.mpr h).ne']
  ring

theorem falling_eq (h : low < high) : high - (high - x) / (high - low) * (high - low) = x := by
  rw [div_mul_cancel₀ _ (sub_pos.mpr h).ne']
  ring

/-- A share of the way between the channels. -/
theorem share_mem {d : ℚ} (h₀ : 0 ≤ x) (h₁ : x < d) : 0 ≤ x / d ∧ x / d < 1 := by
  have hd : 0 < d := h₀.trans_lt h₁
  exact ⟨div_nonneg h₀ hd.le, (div_lt_one hd).mpr h₁⟩

end Wheel

/-- The six orders of three numbers that are not all the same, each with one tie. -/
theorem exists_order {r g b : ℚ} (h : min (min r g) b < max (max r g) b) :
    b ≤ g ∧ g < r ∨ b < r ∧ r ≤ g ∨ r ≤ b ∧ b < g ∨ r < g ∧ g ≤ b ∨ g ≤ r ∧ r < b ∨
      g < b ∧ b ≤ r := by
  by_contra hnone
  simp only [not_or, not_and, not_lt, not_le] at hnone
  obtain ⟨h₀, h₁, h₂, h₃, h₄, h₅⟩ := hnone
  grind

/-- The sectors follow the six orders of the channels; of two channels that tie, the order is the one
of the sector that begins with the tie. -/
theorem exists_wheel {c : Color ℚ} (h : smallest c < largest c) :
    ∃ k < 6, ∃ f, 0 ≤ f ∧ f < 1 ∧ c = wheel k f (largest c) (smallest c) := by
  obtain ⟨r, g, b⟩ := c
  rw [smallest_rat, largest_rat] at h ⊢
  dsimp only at h ⊢
  have hin (k : Nat) (hk : k < 6) (high low x : ℚ) (hlow : min (min r g) b = low)
      (hhigh : max (max r g) b = high) (h₀ : 0 ≤ x) (h₁ : x < high - low)
      (hc : (⟨r, g, b⟩ : Color ℚ) = wheel k (x / (high - low)) high low) :
      ∃ k < 6, ∃ f, 0 ≤ f ∧ f < 1 ∧
        (⟨r, g, b⟩ : Color ℚ) = wheel k f (max (max r g) b) (min (min r g) b) := by
    obtain ⟨hf₀, hf₁⟩ := share_mem h₀ h₁
    exact ⟨k, hk, _, hf₀, hf₁, by rw [hlow, hhigh]; exact hc⟩
  obtain ⟨hbg, hgr⟩ | ⟨hbr, hrg⟩ | ⟨hrb, hbg⟩ | ⟨hrg, hgb⟩ | ⟨hgr, hrb⟩ | ⟨hgb, hbr⟩ :=
    exists_order h
  · have hbr : b < r := hbg.trans_lt hgr
    refine hin 0 (by norm_num) r b (g - b) ?_ ?_ (by linarith) (by linarith) ?_
    · rw [min_eq_right hgr.le, min_eq_right hbg]
    · rw [max_eq_left hgr.le, max_eq_left hbr.le]
    · simp only [wheel, rising_eq hbr]
  · have hbg : b < g := hbr.trans_le hrg
    refine hin 1 (by norm_num) g b (g - r) ?_ ?_ (by linarith) (by linarith) ?_
    · rw [min_eq_left hrg, min_eq_right hbr.le]
    · rw [max_eq_right hrg, max_eq_left hbg.le]
    · simp only [wheel, falling_eq hbg]
  · have hrg : r < g := hrb.trans_lt hbg
    refine hin 2 (by norm_num) g r (b - r) ?_ ?_ (by linarith) (by linarith) ?_
    · rw [min_eq_left hrg.le, min_eq_left hrb]
    · rw [max_eq_right hrg.le, max_eq_left hbg.le]
    · simp only [wheel, rising_eq hrg]
  · have hrb : r < b := hrg.trans_le hgb
    refine hin 3 (by norm_num) b r (b - g) ?_ ?_ (by linarith) (by linarith) ?_
    · rw [min_eq_left hrg.le, min_eq_left hrb.le]
    · rw [max_eq_right hrg.le, max_eq_right hgb]
    · simp only [wheel, falling_eq hrb]
  · have hgb : g < b := hgr.trans_lt hrb
    refine hin 4 (by norm_num) b g (r - g) ?_ ?_ (by linarith) (by linarith) ?_
    · rw [min_eq_right hgr, min_eq_left hgb.le]
    · rw [max_eq_left hgr, max_eq_right hrb.le]
    · simp only [wheel, rising_eq hgb]
  · have hgr : g < r := hgb.trans_le hbr
    refine hin 5 (by norm_num) r g (r - b) ?_ ?_ (by linarith) (by linarith) ?_
    · rw [min_eq_right hgr.le, min_eq_left hgb.le]
    · rw [max_eq_left hgr.le, max_eq_left hbr]
    · simp only [wheel, falling_eq hgr]

section Wheel

variable {k : Nat} {f high low s v : ℚ}

theorem rgbOfHsv_wheel (hk : k < 6) (h₀ : 0 ≤ f) (h₁ : f < 1) (hs : 0 < s) :
    rgbOfHsv ⟨(k + f) / 6, s, v⟩ = wheel k f v (v * (1 - s)) := by
  have hk₀ : (0 : ℚ) ≤ k := k.cast_nonneg
  have hk₅ : (k : ℚ) ≤ 5 := by exact_mod_cast Nat.le_of_lt_succ hk
  have hturn : ⌊(k + f) / 6⌋ = 0 := by
    rw [Int.floor_eq_zero_iff]
    constructor <;> linarith
  have hsector : ⌊(k + f : ℚ)⌋ = k := by
    rw [Int.floor_natCast_add, Int.floor_eq_zero_iff.mpr ⟨h₀, h₁⟩, add_zero]
  have hsixths : ((k + f) / 6 - 0) * 6 = k + f := by ring
  have hf : (k + f) - ((k : ℤ) : ℚ) = f := by
    push_cast
    ring
  have hrising : v * (1 - s) + f * (v - v * (1 - s)) = v * (1 - s * (1 - f)) := by ring
  have hfalling : v - f * (v - v * (1 - s)) = v * (1 - s * f) := by ring
  simp only [rgbOfHsv, if_neg hs.not_ge, Scalar.floor_rat, hturn, Int.cast_zero, hsixths,
    hsector, Scalar.truncate_intCast, hf, wheel, hrising, hfalling]
  interval_cases k <;> rfl

/-- A channel at a place of a sector, counted from the sector where the channel rises. -/
def ramp (sector : ℤ) (place high low : ℚ) : ℚ :=
  match sector % 6 with
  | 0 => low + place * (high - low)
  | 1 | 2 => high
  | 3 => high - place * (high - low)
  | _ => low

theorem wheel_eq_ramp (hk : k < 6) :
    wheel k f high low = ⟨ramp (k + 2) f high low, ramp k f high low, ramp (k - 2) f high low⟩ := by
  interval_cases k <;> rfl

theorem hslChannel_eq_ramp (j : ℤ) (h₀ : 0 ≤ f) (h₁ : f < 1) :
    hslChannel low high ((j + f) / 6) = ramp j f high low := by
  obtain ⟨i, hi⟩ : ∃ i, j % 6 = i := ⟨_, rfl⟩
  have hi₀ : 0 ≤ i := hi ▸ Int.emod_nonneg j (by norm_num)
  have hi₅ : i < 6 := hi ▸ Int.emod_lt_of_pos j (by norm_num)
  have hfraction : (j + f) / 6 - Scalar.floor ((j + f) / 6) = (i + f) / 6 := by
    have hj : (j : ℚ) = i + 6 * ((j / 6 : ℤ) : ℚ) := by
      rw [← hi]
      exact_mod_cast (Int.emod_add_mul_ediv j 6).symm
    have hplace : (j + f) / 6 = (i + f) / 6 + ((j / 6 : ℤ) : ℚ) := by
      rw [hj]
      ring
    have hturn : ⌊(i + f) / 6⌋ = 0 := by
      have hi₀ : (0 : ℚ) ≤ i := by exact_mod_cast hi₀
      have hi₅ : (i : ℚ) ≤ 5 := by exact_mod_cast Int.le_of_lt_add_one hi₅
      rw [Int.floor_eq_zero_iff]
      constructor <;> linarith
    rw [Scalar.floor_rat, hplace, Int.floor_add_intCast, hturn, zero_add, add_sub_cancel_right]
  simp only [hslChannel, hfraction, ramp, hi]
  interval_cases i
  · rw [if_pos (by push_cast; linarith)]
    push_cast
    ring
  · rw [if_neg (by push_cast; linarith), if_pos (by push_cast; linarith)]
    rfl
  · rw [if_neg (by push_cast; linarith), if_pos (by push_cast; linarith)]
    rfl
  · rw [if_neg (by push_cast; linarith), if_neg (by push_cast; linarith),
      if_pos (by push_cast; linarith)]
    push_cast
    ring
  · rw [if_neg (by push_cast; linarith), if_neg (by push_cast; linarith),
      if_neg (by push_cast; linarith)]
    rfl
  · rw [if_neg (by push_cast; linarith), if_neg (by push_cast; linarith),
      if_neg (by push_cast; linarith)]
    rfl

theorem rgbOfHsl_wheel {l : ℚ} (hk : k < 6) (h₀ : 0 ≤ f) (h₁ : f < 1) (hs : 0 < s)
    (hhigh : (if l ≤ 1 / 2 then l * (1 + s) else l + s - l * s) = high) (hlow : 2 * l - high = low) :
    rgbOfHsl ⟨(k + f) / 6, s, l⟩ = wheel k f high low := by
  have hred : (k + f) / 6 + 1 / 3 = (((k + 2 : ℤ) : ℚ) + f) / 6 := by
    push_cast
    ring
  have hgreen : (k + f) / 6 = (((k : ℤ) : ℚ) + f) / 6 := by
    push_cast
    ring
  have hblue : (k + f) / 6 - 1 / 3 = (((k - 2 : ℤ) : ℚ) + f) / 6 := by
    push_cast
    ring
  simp only [rgbOfHsl, if_neg hs.not_ge, hhigh, hlow]
  rw [hred, hblue, hgreen, hslChannel_eq_ramp _ h₀ h₁, hslChannel_eq_ramp _ h₀ h₁,
    hslChannel_eq_ramp _ h₀ h₁, wheel_eq_ramp hk]

end Wheel

@[simp] theorem largest_splat (v : ℚ) : largest (Color.splat v) = v := by
  simp [largest_rat, Color.splat]

@[simp] theorem smallest_splat (v : ℚ) : smallest (Color.splat v) = v := by
  simp [smallest_rat, Color.splat]

theorem rgbOfHsv_grey (h v : ℚ) : rgbOfHsv ⟨h, 0, v⟩ = .splat v := by
  simp [rgbOfHsv]

theorem rgbOfHsl_grey (h v : ℚ) : rgbOfHsl ⟨h, 0, v⟩ = .splat v := by
  simp [rgbOfHsl]

theorem hsvOfRgb_splat (v : ℚ) : hsvOfRgb (.splat v) = ⟨0, 0, v⟩ := by
  simp [hsvOfRgb, hue]

theorem hslOfRgb_splat (v : ℚ) : hslOfRgb (.splat v) = ⟨0, 0, v⟩ := by
  simp [hslOfRgb, hue]
  ring

/-- A color is grey, or stands in a sector that its hue tells. -/
theorem grey_or_wheel (c : Color ℚ) :
    (∃ v, c = .splat v) ∨ smallest c < largest c ∧ ∃ k < 6, ∃ f : ℚ, 0 ≤ f ∧ f < 1 ∧
      c = wheel k f (largest c) (smallest c) ∧
      hue c (largest c) (largest c - smallest c) = (k + f) / 6 := by
  rcases lt_or_ge (smallest c) (largest c) with h | h
  · obtain ⟨k, hk, f, h₀, h₁, hc⟩ := exists_wheel h
    refine .inr ⟨h, k, hk, f, h₀, h₁, hc, ?_⟩
    generalize largest c = high at *
    generalize smallest c = low at *
    rw [hc, hue_wheel hk h₀ h₁ h]
  · rw [largest_rat, smallest_rat] at h
    simp only [max_le_iff, le_min_iff] at h
    obtain ⟨r, g, b⟩ := c
    have hg : g = r := h.1.1.1.2.antisymm h.1.2.1.1
    have hb : b = r := h.1.1.2.antisymm h.2.1.1
    exact .inl ⟨r, by rw [hg, hb]; rfl⟩

section Divisions

open Checked

theorem hue_color (c : Color ℚ) (p q : ℚ) : hue (color c) (of p) (of q) = of (hue c p q) := by
  by_cases h : q = 0
  · simp [hue, h, ofNat_eq, of_beq]
  · simp (disch := first | assumption | norm_num) only [hue, color_r, color_g, color_b, ofNat_eq,
      of_beq, h, if_false, beq_iff_eq, of_sub, of_add, of_div, of_ite, of_lt]

theorem largest_color (c : Color ℚ) : largest (color c) = of (largest c) := by
  simp only [largest, color_r, color_g, color_b, larger_of]

theorem smallest_color (c : Color ℚ) : smallest (color c) = of (smallest c) := by
  simp only [smallest, color_r, color_g, color_b, smaller_of]

theorem hsvOfRgb_color (c : Color ℚ) : hsvOfRgb (color c) = color (hsvOfRgb c) := by
  simp only [hsvOfRgb, largest_color, smallest_color, of_sub, hue_color, ofNat_eq, of_lt]
  by_cases h : 0 < largest c
  · simp only [if_pos h, of_div h.ne', color]
  · simp only [if_neg h, color]

theorem rgbOfHsv_color (c : Color ℚ) : rgbOfHsv (color c) = color (rgbOfHsv c) := by
  simp only [rgbOfHsv, color_r, color_g, color_b, floor_of, ofNat_eq, of_sub, of_mul, of_le,
    truncate_of]
  generalize Scalar.truncate (α := ℚ) _ = sector
  split
  · rfl
  · split <;> rfl

/-- Saturation is divided by the sum of two channels, or by what that sum lacks of two. -/
theorem hslOfRgb_color {c : Color ℚ}
    (h : largest c - smallest c ≠ 0 →
      largest c + smallest c ≠ 0 ∧ 2 - largest c - smallest c ≠ 0) :
    hslOfRgb (color c) = color (hslOfRgb c) := by
  by_cases hdelta : largest c - smallest c = 0
  · simp (disch := norm_num) only [hslOfRgb, largest_color, smallest_color, of_sub, of_add,
      hue_color, ofNat_eq, of_div, of_mul, of_beq, hdelta, beq_iff_eq, if_true]
    rfl
  · obtain ⟨hsum, hrest⟩ := h hdelta
    simp (disch := first | assumption | norm_num) only [hslOfRgb, largest_color, smallest_color,
      of_sub, of_add, hue_color, ofNat_eq, of_div, of_mul, of_le, of_beq, of_ite, beq_iff_eq]
    rfl

theorem hslChannel_of (m₁ m₂ h : ℚ) :
    hslChannel (of m₁) (of m₂) (of h) = of (hslChannel m₁ m₂ h) := by
  simp (disch := norm_num) only [hslChannel, floor_of, ofNat_eq, of_div, of_sub, of_mul, of_add,
    of_lt, of_ite]

theorem rgbOfHsl_color (c : Color ℚ) : rgbOfHsl (color c) = color (rgbOfHsl c) := by
  simp (disch := norm_num) only [rgbOfHsl, color_r, color_g, color_b, ofNat_eq, of_div, of_sub,
    of_mul, of_add, of_le, of_ite, hslChannel_of]
  split <;> rfl

end Divisions

/-- A color goes to a system with a hue and comes back; its hue is in range, and no division on
either way has a zero divisor. -/
structure RoundTrips (there back : {α : Type} → [Scalar α] → Color α → Color α) (c : Color ℚ) :
    Prop where
  back_there : back (there c) = c
  hue_nonneg : 0 ≤ (there c).r
  hue_lt_one : (there c).r < 1
  divides_there : there (Checked.color c) = Checked.color (there c)
  divides_back : back (Checked.color (there c)) = Checked.color (back (there c))

/-- Every channel is at least zero. -/
def Nonnegative (c : Color ℚ) : Prop := 0 ≤ c.r ∧ 0 ≤ c.g ∧ 0 ≤ c.b

/-- Every channel is between zero and one. -/
def InUnit (c : Color ℚ) : Prop := Nonnegative c ∧ c.r ≤ 1 ∧ c.g ≤ 1 ∧ c.b ≤ 1

variable {c : Color ℚ}

theorem Nonnegative.smallest (h : Nonnegative c) : 0 ≤ smallest c := by
  rw [smallest_rat]
  exact le_min (le_min h.1 h.2.1) h.2.2

theorem InUnit.largest (h : InUnit c) : largest c ≤ 1 := by
  rw [largest_rat]
  exact max_le (max_le h.2.1 h.2.2.1) h.2.2.2

theorem hue_mem {k : Nat} {f : ℚ} (hk : k < 6) (h₀ : 0 ≤ f) (h₁ : f < 1) :
    0 ≤ (k + f) / 6 ∧ (k + f) / 6 < 1 := by
  have hk₀ : (0 : ℚ) ≤ k := k.cast_nonneg
  have hk₅ : (k : ℚ) ≤ 5 := by exact_mod_cast Nat.le_of_lt_succ hk
  constructor <;> linarith

theorem hsv_roundTrips (h : Nonnegative c) : RoundTrips hsvOfRgb rgbOfHsv c := by
  have htrip : rgbOfHsv (hsvOfRgb c) = c ∧ 0 ≤ (hsvOfRgb c).r ∧ (hsvOfRgb c).r < 1 := by
    obtain ⟨v, rfl⟩ | ⟨hlt, k, hk, f, h₀, h₁, hc, hhue⟩ := grey_or_wheel c
    · rw [hsvOfRgb_splat]
      exact ⟨rgbOfHsv_grey 0 v, le_rfl, zero_lt_one⟩
    · have hhigh : 0 < largest c := h.smallest.trans_lt hlt
      have hsat : 0 < (largest c - smallest c) / largest c := div_pos (sub_pos.mpr hlt) hhigh
      have hlow : largest c * (1 - (largest c - smallest c) / largest c) = smallest c := by
        field_simp
        ring
      have hthere : hsvOfRgb c = ⟨(k + f) / 6, (largest c - smallest c) / largest c, largest c⟩ := by
        simp only [hsvOfRgb, hhue, if_pos hhigh]
      rw [hthere, rgbOfHsv_wheel hk h₀ h₁ hsat, hlow]
      exact ⟨hc.symm, hue_mem hk h₀ h₁⟩
  exact ⟨htrip.1, htrip.2.1, htrip.2.2, hsvOfRgb_color c, rgbOfHsv_color _⟩

theorem smallest_le_largest (c : Color ℚ) : smallest c ≤ largest c := by
  rw [smallest_rat, largest_rat]
  exact (min_le_left _ _).trans ((min_le_left _ _).trans ((le_max_left _ _).trans (le_max_left _ _)))

/-- The saturation of a color that is not grey, by its largest and smallest channel. -/
def saturation (high low : ℚ) : ℚ :=
  if (high + low) * (1 / 2) ≤ 1 / 2 then (high - low) / (high + low)
  else (high - low) / (2 - high - low)

/-- Lightness and saturation give the largest channel back. -/
theorem saturation_spec {low high l : ℚ} (h₀ : 0 ≤ low) (hlt : low < high) (h₁ : high ≤ 1)
    (hl : l = (high + low) * (1 / 2)) :
    0 < saturation high low ∧
      (if l ≤ 1 / 2 then l * (1 + saturation high low)
        else l + saturation high low - l * saturation high low) = high := by
  have hdelta : 0 < high - low := sub_pos.mpr hlt
  have hsum : 0 < high + low := by linarith
  have hrest : 0 < 2 - high - low := by linarith
  by_cases hdark : l ≤ 1 / 2
  · have hs : saturation high low = (high - low) / (high + low) := if_pos (hl ▸ hdark)
    rw [if_pos hdark, hs]
    refine ⟨div_pos hdelta hsum, ?_⟩
    rw [hl]
    field_simp
    ring
  · have hs : saturation high low = (high - low) / (2 - high - low) := if_neg (hl ▸ hdark)
    rw [if_neg hdark, hs]
    refine ⟨div_pos hdelta hrest, ?_⟩
    rw [hl]
    field_simp
    ring

theorem hsl_roundTrips (h : InUnit c) : RoundTrips hslOfRgb rgbOfHsl c := by
  have hlow : 0 ≤ smallest c := h.1.smallest
  have hhigh : largest c ≤ 1 := h.largest
  have htrip : rgbOfHsl (hslOfRgb c) = c ∧ 0 ≤ (hslOfRgb c).r ∧ (hslOfRgb c).r < 1 := by
    obtain ⟨v, rfl⟩ | ⟨hlt, k, hk, f, h₀, h₁, hc, hhue⟩ := grey_or_wheel c
    · rw [hslOfRgb_splat]
      exact ⟨rgbOfHsl_grey 0 v, le_rfl, zero_lt_one⟩
    · obtain ⟨hs, hup⟩ := saturation_spec hlow hlt hhigh rfl
      have hdown : 2 * ((largest c + smallest c) * (1 / 2)) - largest c = smallest c := by ring
      have hdelta : ¬((largest c - smallest c == 0) = true) := by
        rw [beq_iff_eq]
        exact (sub_pos.mpr hlt).ne'
      have hthere : hslOfRgb c = ⟨(k + f) / 6, saturation (largest c) (smallest c),
          (largest c + smallest c) * (1 / 2)⟩ := by
        simp only [hslOfRgb, hhue, if_neg hdelta, saturation]
      rw [hthere, rgbOfHsl_wheel hk h₀ h₁ hs hup hdown]
      exact ⟨hc.symm, hue_mem hk h₀ h₁⟩
  have hdivisors (hne : largest c - smallest c ≠ 0) :
      largest c + smallest c ≠ 0 ∧ 2 - largest c - smallest c ≠ 0 := by
    have hlt : smallest c < largest c := (smallest_le_largest c).lt_of_ne fun h => hne (by simp [h])
    constructor <;> linarith
  exact ⟨htrip.1, htrip.2.1, htrip.2.2, hslOfRgb_color hdivisors, rgbOfHsl_color _⟩

/-- Both systems that go by hue give a color back, the one for every color without a negative
channel, the other for every color between black and white. -/
theorem hues_roundTrip (c : Color ℚ) :
    (Nonnegative c → RoundTrips hsvOfRgb rgbOfHsv c) ∧ (InUnit c → RoundTrips hslOfRgb rgbOfHsl c) :=
  ⟨hsv_roundTrips, hsl_roundTrips⟩

/-- Green is below blue and red is largest, where a hue comes out negative and turns once around; in
the first color red and blue tie. -/
theorem hues_roundTrip_magenta :
    RoundTrips hsvOfRgb rgbOfHsv ⟨3, 1, 3⟩ ∧ RoundTrips hslOfRgb rgbOfHsl ⟨1, 1 / 4, 1 / 2⟩ := by
  refine ⟨(hues_roundTrip ⟨3, 1, 3⟩).1 ?_, (hues_roundTrip ⟨1, 1 / 4, 1 / 2⟩).2 ?_⟩
  · norm_num [Nonnegative]
  · norm_num [InUnit, Nonnegative]

end ShadingMachine.ColorSpace
