import ShadingMachine.Number.Layout
import ShadingMachine.Proofs.Number.Decimal
import ShadingMachine.Proofs.Number.Nearest

/-! A finite float is read back from the text it is written as: the grids are fine enough to hold a
point that rounds to it, and the layout of the digits changes nothing of their value. -/
namespace ShadingMachine.Number

open Float.Model Float.Model.UnpackedFloat Format

def Decimal.value (d : Decimal) : ℚ := d.digits * 10 ^ d.exponent

/-- The two sides of a comparison on a grid, in whole numbers and as rationals. -/
theorem zpow_eq_div {b : ℚ} (hb : b ≠ 0) (k : ℤ) : b ^ k = b ^ k.toNat / b ^ (-k).toNat := by
  rw [← zpow_natCast, ← zpow_natCast, ← zpow_sub₀ hb]
  congr 1
  omega

namespace Binary

variable {b : Binary} {tie : Tie} {k : ℤ} {d : Decimal}

/-- The whole numbers that stand for the sizes on a grid: `scale` for the float, `unit` for the
grid. -/
def scale (b : Binary) (k : ℤ) : ℕ := (1 <<< (b.exponent - 2).toNat) * Nat.pow 10 (-k).toNat

def unit (b : Binary) (k : ℤ) : ℕ := (1 <<< (-(b.exponent - 2)).toNat) * Nat.pow 10 k.toNat

theorem scale_pos (b : Binary) (k : ℤ) : 0 < b.scale k := by
  rw [scale, Nat.one_shiftLeft]
  exact Nat.mul_pos (Nat.two_pow_pos _) (Nat.pow_pos (by decide))

theorem unit_pos (b : Binary) (k : ℤ) : 0 < b.unit k := by
  rw [unit, Nat.one_shiftLeft]
  exact Nat.mul_pos (Nat.two_pow_pos _) (Nat.pow_pos (by decide))

/-- A quarter of the last place of the float, in units of the grid. -/
theorem scale_div_unit (b : Binary) (k : ℤ) :
    (b.scale k : ℚ) / b.unit k = 2 ^ b.exponent / 4 / 10 ^ k := by
  have htwo : (2 : ℚ) ^ b.exponent / 4 =
      2 ^ (b.exponent - 2).toNat / 2 ^ (-(b.exponent - 2)).toNat := by
    rw [← zpow_eq_div two_ne_zero, zpow_sub₀ two_ne_zero]
    norm_num
  rw [scale, unit, Nat.one_shiftLeft, Nat.one_shiftLeft, Nat.pow_eq, Nat.pow_eq, htwo,
    zpow_eq_div (b := 10) (by norm_num) k]
  push_cast
  field_simp

/-- Whether a point of the grid reads back as the float. -/
def reads (b : Binary) (k : ℤ) (c : ℕ) : Bool :=
  if b.mantissa % 2 = 0 then
    decide ((4 * b.mantissa - if b.narrow then 1 else 2) * b.scale k ≤ c * b.unit k ∧
      c * b.unit k ≤ (4 * b.mantissa + 2) * b.scale k)
  else
    decide ((4 * b.mantissa - if b.narrow then 1 else 2) * b.scale k < c * b.unit k ∧
      c * b.unit k < (4 * b.mantissa + 2) * b.scale k)

theorem onGrid?_eq (b : Binary) (tie : Tie) (k : ℤ) : ∃ takesAbove : Bool,
    b.onGrid? tie k =
      (let c := 4 * b.mantissa * b.scale k / b.unit k
      if ((decide (0 < c) && b.reads k c) && b.reads k (c + 1)) = true then
        some ⟨if takesAbove then c + 1 else c, k⟩
      else if (decide (0 < c) && b.reads k c) = true then some ⟨c, k⟩
      else if b.reads k (c + 1) = true then some ⟨c + 1, k⟩
      else none) := ⟨_, rfl⟩

theorem of_onGrid? (h : b.onGrid? tie k = some d) :
    d.exponent = k ∧ 0 < d.digits ∧ b.reads k d.digits = true := by
  obtain ⟨takesAbove, heq⟩ := b.onGrid?_eq tie k
  rw [h] at heq
  dsimp only at heq
  split at heq
  · rename_i hboth
    simp only [Bool.and_eq_true, decide_eq_true_eq] at hboth
    obtain ⟨⟨hpos, hbelow⟩, habove⟩ := hboth
    cases heq
    cases takesAbove with
    | true => exact ⟨rfl, Nat.succ_pos _, habove⟩
    | false => exact ⟨rfl, hpos, hbelow⟩
  · split at heq
    · rename_i hbelow
      simp only [Bool.and_eq_true, decide_eq_true_eq] at hbelow
      cases heq
      exact ⟨rfl, hbelow⟩
    · split at heq
      · rename_i habove
        cases heq
        exact ⟨rfl, Nat.succ_pos _, habove⟩
      · cases heq

/-- A number of quarters of the last place is compared with a point of the grid in whole
numbers. -/
theorem compare_eq (b : Binary) (k : ℤ) (n c : ℕ) :
    ((n : ℚ) / 4 * 2 ^ b.exponent - c * 10 ^ k) * b.unit k =
      ((n * b.scale k : ℕ) - (c * b.unit k : ℕ)) * 10 ^ k := by
  have hunit : (0 : ℚ) < b.unit k := by exact_mod_cast b.unit_pos k
  have hratio := b.scale_div_unit k
  rw [div_div, div_eq_div_iff hunit.ne' (by positivity)] at hratio
  push_cast
  linarith [congrArg ((n : ℚ) * ·) hratio]

theorem quarters_le_iff (b : Binary) (k : ℤ) (n c : ℕ) :
    n * b.scale k ≤ c * b.unit k ↔ (n : ℚ) / 4 * 2 ^ b.exponent ≤ c * 10 ^ k := by
  have hten := zpow_pos (by norm_num : (0 : ℚ) < 10) k
  have hunit : (0 : ℚ) < b.unit k := by exact_mod_cast b.unit_pos k
  have h : ((c : ℚ) * 10 ^ k - n / 4 * 2 ^ b.exponent) * b.unit k =
      ((c * b.unit k : ℕ) - (n * b.scale k : ℕ)) * 10 ^ k := by
    linarith [b.compare_eq k n c]
  rw [← Nat.cast_le (α := ℚ), ← sub_nonneg, ← mul_nonneg_iff_of_pos_right hten, ← h,
    mul_nonneg_iff_of_pos_right hunit, sub_nonneg]

theorem le_quarters_iff (b : Binary) (k : ℤ) (n c : ℕ) :
    c * b.unit k ≤ n * b.scale k ↔ (c : ℚ) * 10 ^ k ≤ (n : ℚ) / 4 * 2 ^ b.exponent := by
  have hten := zpow_pos (by norm_num : (0 : ℚ) < 10) k
  have hunit : (0 : ℚ) < b.unit k := by exact_mod_cast b.unit_pos k
  rw [← Nat.cast_le (α := ℚ), ← sub_nonneg, ← mul_nonneg_iff_of_pos_right hten, ← compare_eq,
    mul_nonneg_iff_of_pos_right hunit, sub_nonneg]

/-- A point that reads back as the float is rounded to it. -/
theorem roundsTo_of_reads (hb : IsSingle b.mantissa b.exponent)
    (hnarrow : b.narrow = true ↔ b.mantissa = 2 ^ 23 ∧ -149 < b.exponent) {c : ℕ}
    (h : b.reads k c = true) : RoundsTo ((c : ℚ) * 10 ^ k) b.mantissa b.exponent := by
  have hpos := hb.pos
  have hp := two_zpow_pos b.exponent
  have hhigh : (((4 * b.mantissa + 2 : ℕ) : ℚ) / 4) = b.mantissa + 1 / 2 := by
    push_cast
    ring
  have hlow : (((4 * b.mantissa - if b.narrow then 1 else 2 : ℕ) : ℚ) / 4) =
      b.mantissa - if b.mantissa = 2 ^ 23 ∧ -149 < b.exponent then 1 / 4 else 1 / 2 := by
    by_cases hn : b.narrow = true
    · rw [if_pos hn, if_pos (hnarrow.mp hn), Nat.cast_sub (by omega)]
      push_cast
      ring
    · rw [if_neg hn, if_neg (mt hnarrow.mpr hn), Nat.cast_sub (by omega)]
      push_cast
      ring
  unfold reads at h
  split at h
  · rename_i heven
    obtain ⟨h₁, h₂⟩ := of_decide_eq_true h
    rw [quarters_le_iff, hlow] at h₁
    rw [le_quarters_iff, hhigh] at h₂
    exact ⟨h₁, h₂, fun hodd => by omega⟩
  · rename_i hodd
    obtain ⟨h₁, h₂⟩ := of_decide_eq_true h
    rw [← Nat.not_le, le_quarters_iff, hlow, not_le] at h₁
    rw [← Nat.not_le, quarters_le_iff, hhigh, not_le] at h₂
    refine ⟨h₁.le, h₂.le, fun _ => ⟨lt_of_le_of_lt ?_ h₁, h₂⟩⟩
    split <;> nlinarith

/-- The finest grid holds the float itself. -/
theorem isSome_onGrid?_finest (hb : IsSingle b.mantissa b.exponent) (tie : Tie) :
    (b.onGrid? tie (-159)).isSome := by
  have hlow := hb.low
  have hmantissa := hb.pos
  have hscale := b.scale_pos (-159)
  have hunit := b.unit_pos (-159)
  obtain ⟨j, hj, hbits⟩ : ∃ j, j ≤ 159 ∧ b.unit (-159) = 2 ^ j := by
    refine ⟨(-(b.exponent - 2)).toNat, by omega, ?_⟩
    rw [unit, Nat.one_shiftLeft]
    exact Nat.mul_one _
  have hdvd : b.unit (-159) ∣ b.scale (-159) := by
    have hten : 2 ^ j ∣ 10 ^ 159 :=
      (Nat.pow_dvd_pow 2 hj).trans (pow_dvd_pow_of_dvd (by decide : 2 ∣ 10) 159)
    rw [hbits, scale]
    exact hten.trans (Nat.dvd_mul_left _ _)
  have hvalue : 4 * b.mantissa * b.scale (-159) / b.unit (-159) * b.unit (-159) =
      4 * b.mantissa * b.scale (-159) := Nat.div_mul_cancel (hdvd.mul_left _)
  have hpos : 0 < 4 * b.mantissa * b.scale (-159) / b.unit (-159) := by
    refine Nat.div_pos (Nat.le_of_dvd ?_ (hdvd.mul_left _)) hunit
    exact Nat.mul_pos (by omega) hscale
  have hreads : b.reads (-159) (4 * b.mantissa * b.scale (-159) / b.unit (-159)) = true := by
    have h₁ : (4 * b.mantissa - if b.narrow then 1 else 2) * b.scale (-159) <
        4 * b.mantissa * b.scale (-159) :=
      Nat.mul_lt_mul_of_pos_right (by split <;> omega) hscale
    have h₂ : 4 * b.mantissa * b.scale (-159) < (4 * b.mantissa + 2) * b.scale (-159) :=
      Nat.mul_lt_mul_of_pos_right (by omega) hscale
    unfold reads
    rw [hvalue]
    split
    · exact decide_eq_true ⟨h₁.le, h₂.le⟩
    · exact decide_eq_true ⟨h₁, h₂⟩
  obtain ⟨takesAbove, heq⟩ := b.onGrid?_eq tie (-159)
  rw [heq]
  simp only [hpos, hreads, decide_true, Bool.true_and, if_true]
  split <;> rfl

theorem shortest_rounds (hb : IsSingle b.mantissa b.exponent)
    (hnarrow : b.narrow = true ↔ b.mantissa = 2 ^ 23 ∧ -149 < b.exponent) (tie : Tie) :
    0 < (b.shortest tie).digits ∧
      RoundsTo (b.shortest tie).value b.mantissa b.exponent := by
  have hfound : ((List.range 200).findSome? fun i =>
      b.onGrid? tie (40 - Int.ofNat i)).isSome := by
    rw [List.findSome?_isSome_iff]
    exact ⟨199, by simp, b.isSome_onGrid?_finest hb tie⟩
  obtain ⟨d, hd⟩ := Option.isSome_iff_exists.mp hfound
  obtain ⟨i, -, hi⟩ := List.exists_of_findSome?_eq_some hd
  obtain ⟨hexponent, hdigits, hreads⟩ := of_onGrid? hi
  have hshortest : b.shortest tie = d := by
    rw [shortest, hd]
    rfl
  rw [hshortest, Decimal.value, hexponent]
  exact ⟨hdigits, roundsTo_of_reads hb hnarrow hreads⟩

end Binary

/-! Layouts -/

theorem naturalOf_append_zeros (cs : List Char) (n : ℕ) :
    naturalOf (cs ++ List.replicate n '0') = naturalOf cs * 10 ^ n := by
  induction n with
  | zero => simp
  | succ n ih =>
    have hlast : naturalOf (cs ++ List.replicate n '0' ++ ['0']) =
        10 * naturalOf (cs ++ List.replicate n '0') + digitValue '0' := by
      rw [naturalOf, List.foldl_append]
      rfl
    have hzero : digitValue '0' = 0 := rfl
    rw [List.replicate_succ', ← List.append_assoc, hlast, ih, hzero, Nat.pow_succ]
    ring

theorem naturalOf_zeros_append (n : ℕ) (cs : List Char) :
    naturalOf (List.replicate n '0' ++ cs) = naturalOf cs := by
  induction n with
  | zero => rfl
  | succ n ih => exact ih

/-- What may stand behind the digits of a number: nothing, or an exponent. -/
theorem head_of_exponentOf? {c : Char} {cs : List Char} {k : ℤ}
    (h : exponentOf? (c :: cs) = some k) : c.isDigit = false ∧ c ≠ '.' := by
  unfold exponentOf? at h
  dsimp only at h
  split at h
  · rename_i he
    simp only [Bool.and_eq_true, Bool.or_eq_true, beq_iff_eq] at he
    rcases he.1.1 with rfl | rfl <;> decide
  · cases h

section

variable {whole fraction rest : List Char} {k : ℤ} (hwhole : ∀ c ∈ whole, c.isDigit = true)
  (hne : whole ≠ []) (hrest : exponentOf? rest = some k) (negative : Bool)
include hwhole hne hrest

omit hrest in
theorem splitSign_sign (rest : List Char) :
    splitSign ((if negative then ['-'] else []) ++ (whole ++ rest)) =
      (negative, whole ++ rest) := by
  cases negative with
  | true => rfl
  | false =>
    cases whole with
    | nil => exact absurd rfl hne
    | cons c cs => exact splitSign_of_isDigit (hwhole c List.mem_cons_self) _

theorem numeral?_point (hfraction : ∀ c ∈ fraction, c.isDigit = true) :
    numeral? ((if negative then ['-'] else []) ++ (whole ++ '.' :: (fraction ++ rest))) =
      some ⟨negative, naturalOf (whole ++ fraction), k - fraction.length⟩ := by
  have hpoint : ('.').isDigit = false := rfl
  have htake : (fraction ++ rest).takeWhile Char.isDigit = fraction := by
    rw [List.takeWhile_append_of_pos hfraction]
    cases rest with
    | nil => simp
    | cons c cs => simp [(head_of_exponentOf? hrest).1]
  have hdrop : (fraction ++ rest).dropWhile Char.isDigit = rest := by
    rw [List.dropWhile_append_of_pos hfraction]
    cases rest with
    | nil => rfl
    | cons c cs => simp [(head_of_exponentOf? hrest).1]
  have hfirst : (whole ++ '.' :: (fraction ++ rest)).takeWhile Char.isDigit = whole := by
    rw [List.takeWhile_append_of_pos hwhole]
    simp [hpoint]
  have hsecond : (whole ++ '.' :: (fraction ++ rest)).dropWhile Char.isDigit =
      '.' :: (fraction ++ rest) := by
    rw [List.dropWhile_append_of_pos hwhole]
    simp [hpoint]
  simp [numeral?, splitSign_sign hwhole hne, hfirst, hsecond, htake, hdrop, hne, hrest]

theorem numeral?_whole :
    numeral? ((if negative then ['-'] else []) ++ (whole ++ rest)) =
      some ⟨negative, naturalOf whole, k⟩ := by
  have hfirst : (whole ++ rest).takeWhile Char.isDigit = whole := by
    rw [List.takeWhile_append_of_pos hwhole]
    cases rest with
    | nil => simp
    | cons c cs => simp [(head_of_exponentOf? hrest).1]
  have hsecond : (whole ++ rest).dropWhile Char.isDigit = rest := by
    rw [List.dropWhile_append_of_pos hwhole]
    cases rest with
    | nil => rfl
    | cons c cs => simp [(head_of_exponentOf? hrest).1]
  simp only [numeral?, splitSign_sign hwhole hne, hfirst, hsecond]
  cases rest with
  | nil => simp [hne, hrest]
  | cons c cs => simp [hne, hrest, (head_of_exponentOf? hrest).2]

end

/-! The text of a float -/

theorem isDigit_zeros {n : ℕ} {c : Char} (h : c ∈ List.replicate n '0') : c.isDigit = true := by
  rw [List.eq_of_mem_replicate h]
  rfl

theorem exponentOf?_toString (k : ℤ) : exponentOf? ('e' :: (toString k).toList) = some k := by
  cases k with
  | ofNat n =>
    have htext : (toString (Int.ofNat n)).toList = Nat.toDigits 10 n := by
      show (toString n).toList = _
      rw [Nat.toString_eq_repr, Nat.toList_repr]
    obtain ⟨c, cs, hcs, hc⟩ := exists_toDigits n
    have hsign : splitSign (Nat.toDigits 10 n) = (false, Nat.toDigits 10 n) := by
      rw [hcs, splitSign_of_isDigit hc]
    have hne : (Nat.toDigits 10 n).isEmpty = false := by simp [Nat.toDigits_ne_nil]
    rw [htext]
    simp only [exponentOf?, hsign, hne, all_isDigit, naturalOf_toDigits]
    rfl
  | negSucc n =>
    have htext : (toString (Int.negSucc n)).toList = '-' :: Nat.toDigits 10 (n + 1) := by
      show ("-" ++ toString (n + 1)).toList = _
      rw [String.toList_append, Nat.toString_eq_repr, Nat.toList_repr]
      rfl
    have hsign : splitSign ('-' :: Nat.toDigits 10 (n + 1)) = (true, Nat.toDigits 10 (n + 1)) := rfl
    have hne : (Nat.toDigits 10 (n + 1)).isEmpty = false := by simp [Nat.toDigits_ne_nil]
    rw [htext]
    simp only [exponentOf?, hsign, hne, all_isDigit, naturalOf_toDigits]
    rfl

/-- A numeral of a sign and a value. -/
structure Numeral.Is (n : Numeral) (negative : Bool) (v : ℚ) : Prop where
  negative : n.negative = negative
  size : n.size = v

theorem toList_sign (negative : Bool) :
    (if negative then "-" else "").toList = if negative then ['-'] else [] := by
  cases negative <;> rfl

namespace Layout

variable {digits : List Char} {position : ℤ}

theorem toList_below (h : position ≤ 0) : (compact.placePoint digits position).toList =
    ['0'] ++ '.' :: (List.replicate (-position).toNat '0' ++ digits ++ []) := by
  simp [placePoint, zeros, h]

theorem toList_whole (h : 0 < position) (hlength : digits.length ≤ position.toNat) :
    (compact.placePoint digits position).toList =
      digits ++ List.replicate (position.toNat - digits.length) '0' ++ '.' :: (['0'] ++ []) := by
  simp [placePoint, zeros, compact, Int.not_le.mpr h, hlength]

theorem toList_between (h : 0 < position) (hlength : position.toNat < digits.length) :
    (compact.placePoint digits position).toList =
      digits.take position.toNat ++ '.' :: (digits.drop position.toNat ++ []) := by
  simp [placePoint, Int.not_le.mpr h, Nat.not_le.mpr hlength]

theorem toList_withExponent (c : Char) (cs : List Char) (h : cs ≠ []) :
    (withExponent (c :: cs) position).toList =
      [c] ++ '.' :: (cs ++ 'e' :: (toString (position - 1)).toList) := by
  cases cs with
  | nil => exact absurd rfl h
  | cons d ds => simp [withExponent]

theorem toList_withExponent_single (c : Char) :
    (withExponent [c] position).toList = [c] ++ 'e' :: (toString (position - 1)).toList := by
  simp [withExponent]

variable (negative : Bool) (d : Decimal)

/-- The digits of a decimal number with the point in its place. -/
theorem numeral?_placePoint :
    ∃ n, numeral? ((if negative then ['-'] else []) ++ (compact.placePoint
        (Nat.toDigits 10 d.digits) ((Nat.toDigits 10 d.digits).length + d.exponent)).toList) =
        some n ∧ n.Is negative d.value := by
  have hdigits : ∀ c ∈ Nat.toDigits 10 d.digits, c.isDigit = true := fun c hc => isDigit_of_mem hc
  have hne : Nat.toDigits 10 d.digits ≠ [] := Nat.toDigits_ne_nil
  have hnone : exponentOf? [] = some 0 := rfl
  have hvalue := naturalOf_toDigits d.digits
  generalize Nat.toDigits 10 d.digits = digits at *
  generalize hposition : (digits.length : ℤ) + d.exponent = position
  by_cases hle : position ≤ 0
  · have hzeros : ∀ c ∈ List.replicate (-position).toNat '0' ++ digits, c.isDigit = true :=
      fun c hc => (List.mem_append.mp hc).elim isDigit_zeros (hdigits c)
    rw [toList_below hle, numeral?_point (by simp) (by simp) hnone negative hzeros]
    refine ⟨_, rfl, rfl, ?_⟩
    have hnatural : naturalOf (['0'] ++ (List.replicate (-position).toNat '0' ++ digits)) =
        d.digits := by
      rw [← hvalue]
      exact naturalOf_zeros_append ((-position).toNat + 1) digits
    have hexponent : 0 - ((List.replicate (-position).toNat '0' ++ digits).length : ℤ) =
        d.exponent := by
      rw [List.length_append, List.length_replicate]
      omega
    rw [Numeral.size, hnatural, hexponent, Decimal.value]
  · by_cases hlength : digits.length ≤ position.toNat
    · have hzeros : ∀ c ∈ digits ++ List.replicate (position.toNat - digits.length) '0',
          c.isDigit = true :=
        fun c hc => (List.mem_append.mp hc).elim (hdigits c) isDigit_zeros
      rw [toList_whole (Int.not_le.mp hle) hlength,
        numeral?_point hzeros (by simp [hne]) hnone negative (by simp)]
      refine ⟨_, rfl, rfl, ?_⟩
      have hnatural : naturalOf (digits ++ List.replicate (position.toNat - digits.length) '0' ++
          ['0']) = d.digits * 10 ^ (position.toNat - digits.length) * 10 := by
        have hlast := naturalOf_append_zeros
          (digits ++ List.replicate (position.toNat - digits.length) '0') 1
        rwa [naturalOf_append_zeros digits, hvalue, Nat.pow_one] at hlast
      have hexponent : ((position.toNat - digits.length : ℕ) : ℤ) = d.exponent := by omega
      rw [Numeral.size, hnatural, Decimal.value, ← hexponent, zpow_natCast]
      push_cast
      norm_num
      ring
    · rw [toList_between (Int.not_le.mp hle) (Nat.lt_of_not_le hlength),
        numeral?_point (fun c hc => hdigits c (List.mem_of_mem_take hc)) ?_ hnone negative
          fun c hc => hdigits c (List.mem_of_mem_drop hc)]
      · refine ⟨_, rfl, rfl, ?_⟩
        have hexponent : 0 - ((digits.drop position.toNat).length : ℤ) = d.exponent := by
          rw [List.length_drop]
          omega
        rw [Numeral.size, List.take_append_drop, hvalue, hexponent, Decimal.value]
      · have hpos : position.toNat ≠ 0 := by omega
        simp [hpos, hne]

/-- One digit before the point, and an exponent. -/
theorem numeral?_withExponent :
    ∃ n, numeral? ((if negative then ['-'] else []) ++ (withExponent
        (Nat.toDigits 10 d.digits) ((Nat.toDigits 10 d.digits).length + d.exponent)).toList) =
        some n ∧ n.Is negative d.value := by
  have hdigits : ∀ c ∈ Nat.toDigits 10 d.digits, c.isDigit = true := fun c hc => isDigit_of_mem hc
  have hvalue := naturalOf_toDigits d.digits
  have hexponent := exponentOf?_toString ((Nat.toDigits 10 d.digits).length + d.exponent - 1)
  obtain ⟨c, cs, hcs, -⟩ := exists_toDigits d.digits
  rw [hcs] at hdigits hvalue hexponent ⊢
  obtain ⟨hc, hcs⟩ := List.forall_mem_cons.mp hdigits
  have hfirst : ∀ x ∈ [c], x.isDigit = true := by simpa using hc
  by_cases hnil : cs = []
  · subst hnil
    rw [toList_withExponent_single, numeral?_whole hfirst (by simp) hexponent negative]
    refine ⟨_, rfl, rfl, ?_⟩
    have hlength : (([c].length : ℕ) : ℤ) + d.exponent - 1 = d.exponent := by
      rw [List.length_singleton]
      omega
    rw [Numeral.size, hvalue, hlength, Decimal.value]
  · rw [toList_withExponent c cs hnil, numeral?_point hfirst (by simp) hexponent negative hcs]
    refine ⟨_, rfl, rfl, ?_⟩
    have hlength : (((c :: cs).length : ℕ) : ℤ) + d.exponent - 1 - (cs.length : ℤ) =
        d.exponent := by
      rw [List.length_cons]
      omega
    rw [Numeral.size, List.singleton_append, hvalue, hlength, Decimal.value]

theorem numeral?_laidOut (positional : Bool) :
    ∃ n, numeral? ((if negative then ['-'] else []) ++ (if positional = true then
        compact.placePoint (Nat.toDigits 10 d.digits)
          ((Nat.toDigits 10 d.digits).length + d.exponent)
      else withExponent (Nat.toDigits 10 d.digits)
        ((Nat.toDigits 10 d.digits).length + d.exponent)).toList) = some n ∧
      n.Is negative d.value := by
  cases positional with
  | true => exact numeral?_placePoint negative d
  | false => exact numeral?_withExponent negative d

end Layout

/-- The exponent that infinities have, and what is not a number. -/
theorem unpackExponent_of_top {x : Float32} (h : x.toBits.toNat / 0x800000 % 0x100 = 255) :
    @unpackExponent binary32 x.toModel.toBits.toBitVec = -1#8 := by
  refine BitVec.eq_of_toNat_eq ?_
  rw [unpackExponent, BitVec.toNat_cast, BitVec.extractLsb_toNat, Nat.shiftRight_eq_div_pow]
  exact h

/-- A finite float has the exponent of no infinity. -/
theorem exists_partsOf {x : Float32} (h : x.isFinite = true) :
    ∃ negative b, partsOf x = .finite negative b := by
  have htop : x.toBits.toNat / 0x800000 % 0x100 ≠ 255 := by
    intro htop
    have hexp := unpackExponent_of_top htop
    have hmodel : x.isFinite =
      (UnpackedFloat.unpack binary32 x.toModel.toBits.toBitVec).isFinite := rfl
    rw [hmodel] at h
    unfold UnpackedFloat.unpack at h
    dsimp only at h
    rw [if_pos hexp] at h
    split at h <;> cases h
  unfold partsOf
  dsimp only
  rw [if_neg htop]
  split
  · exact ⟨_, _, rfl⟩
  · exact ⟨_, _, rfl⟩

theorem eq_zero_of_partsOf {x : Float32} {negative : Bool} {b : Binary}
    (h : partsOf x = .finite negative b) (h₀ : b.mantissa = 0) :
    x = Float32.ofBits (if negative then 0x80000000 else 0) := by
  have hlt : x.toBits.toNat < 2 ^ 32 := x.toBits.toNat_lt
  unfold partsOf at h
  dsimp only at h
  split at h
  · split at h <;> cases h
  · split at h
    · cases h
      dsimp only at h₀
      refine eq_of_toNat_toBits ?_
      by_cases hsign : 0x80000000 ≤ x.toBits.toNat
      · rw [decide_eq_true hsign]
        show x.toBits.toNat = 0x80000000
        omega
      · rw [decide_eq_false hsign]
        show x.toBits.toNat = 0
        omega
    · cases h
      dsimp only at h₀
      omega

/-- Every finite float is read back from its text. -/
theorem numeral?_write {x : Float32} (h : x.isFinite = true) :
    (numeral? (Layout.compact.write x).toList).map Numeral.toFloat32 = some x := by
  obtain ⟨negative, b, hparts⟩ := exists_partsOf h
  unfold Layout.write
  rw [hparts]
  dsimp only
  split
  · rename_i h₀
    rw [eq_zero_of_partsOf hparts h₀]
    cases negative <;> decide +kernel
  · rename_i h₀
    obtain ⟨hb, hnarrow, hx⟩ := eq_single_of_partsOf hparts h₀
    have hrounds := (Binary.shortest_rounds hb hnarrow .even).2
    obtain ⟨n, hn, hnegative, hsize⟩ := Layout.numeral?_laidOut negative (b.shortest .even)
      (Layout.compact.positional ((Nat.toDigits 10 (b.shortest .even).digits).length +
        (b.shortest .even).exponent))
    rw [String.toList_append, toList_sign]
    refine Option.map_eq_some_iff.mpr ⟨n, hn, ?_⟩
    rw [Numeral.toFloat32_eq (hsize ▸ hrounds) hb, hnegative, hx]

end ShadingMachine.Number
