import Mathlib.Algebra.Group.Nat.Even
import Mathlib.Data.List.Forall2
import Mathlib.Data.List.Pairwise
import ShadingMachine.Mask.Bits
import ShadingMachine.Mask.Running

/-! The points of a mask, and masks of two grids compared at one point: a point `i` of a grid of `n`
points and the only point of a grid of one. Taking the lowest bit of a word that is set and clearing
it, as long as there is one, gives the places of all bits that are set, in ascending order and each of
them once. What the states of the points do to the mask of a point depends on that point alone. What a
condition selects and what an inversion leaves is a mask without bits above its size, and for it the
test for no point at all looks at the points only. -/
namespace ShadingMachine.Mask

/-- The bit at `k` is the lowest that is set. -/
structure IsLowest (w : Word) (k : Nat) : Prop where
  set : w.getLsbD k = true
  clear : ∀ j < k, w.getLsbD j = false

theorem exists_isLowest {w : Word} (h : w ≠ 0) : ∃ k, IsLowest w k :=
  ⟨w.ctz.toNat, BitVec.getLsbD_true_ctz_of_ne_zero h, fun _ => BitVec.getLsbD_false_of_lt_ctz⟩

namespace IsLowest

variable {w : Word} {k : Nat}

theorem lt (h : IsLowest w k) : k < 64 := BitVec.lt_of_getLsbD h.set

/-- Below its lowest bit a word is zero, so it is an odd multiple of the power of two there. -/
theorem exists_toNat_eq (h : IsLowest w k) : ∃ q, w.toNat = 2 ^ k * (2 * q + 1) := by
  have hlow : w.toNat % 2 ^ k = 0 := by
    refine Nat.eq_of_testBit_eq fun j => ?_
    rw [Nat.testBit_mod_two_pow, Nat.zero_testBit]
    by_cases hj : j < k
    · rw [show w.toNat.testBit j = false from h.clear j hj, Bool.and_false]
    · simp [hj]
  have hodd : w.toNat / 2 ^ k % 2 = 1 := by
    have hset := h.set
    rw [BitVec.getLsbD, Nat.testBit_eq_decide_div_mod_eq] at hset
    simpa using hset
  refine ⟨w.toNat / 2 ^ k / 2, ?_⟩
  calc w.toNat = 2 ^ k * (w.toNat / 2 ^ k) + w.toNat % 2 ^ k := (Nat.div_add_mod ..).symm
    _ = 2 ^ k * (w.toNat / 2 ^ k) := by rw [hlow, Nat.add_zero]
    _ = 2 ^ k * (2 * (w.toNat / 2 ^ k / 2) + 1) := by congr 1; omega

/-- Taking one away borrows up to the lowest bit. -/
theorem getLsbD_sub_one (h : IsLowest w k) {j : Nat} (hj : j < 64) :
    (w - 1).getLsbD j = if j < k then true else if j = k then false else w.getLsbD j := by
  obtain ⟨q, hq⟩ := h.exists_toNat_eq
  have hpos : 0 < 2 ^ k := Nat.two_pow_pos k
  have hone : (1 : Word) ≤ w := by
    rw [BitVec.le_def, hq]
    exact Nat.mul_pos hpos (by omega)
  have hpred : (w - 1).toNat = 2 ^ k * (2 * q) + (2 ^ k - 1) := by
    rw [BitVec.toNat_sub_of_le hone, hq, Nat.mul_add, Nat.mul_one]
    exact Nat.add_sub_assoc hpos _
  unfold BitVec.getLsbD
  rw [hpred, hq, Nat.testBit_two_pow_mul_add _ (by omega), Nat.testBit_two_pow_mul]
  rcases Nat.lt_trichotomy j k with hlt | rfl | hgt
  · simp [Nat.testBit_two_pow_sub_one, hlt]
  · simp
  · obtain ⟨m, rfl⟩ : ∃ m, j = k + (m + 1) := ⟨j - k - 1, by omega⟩
    have hhalf : (2 * q + 1) / 2 = 2 * q / 2 := by omega
    simp [Nat.testBit_succ, hhalf]

theorem getLsbD_and_sub_one (h : IsLowest w k) (j : Nat) :
    (w &&& (w - 1)).getLsbD j = (w.getLsbD j && decide (j ≠ k)) := by
  by_cases hj : j < 64
  · rw [BitVec.getLsbD_and, h.getLsbD_sub_one hj]
    rcases Nat.lt_trichotomy j k with hlt | rfl | hgt
    · simp [h.clear j hlt]
    · simp
    · simp [Nat.lt_asymm hgt, Nat.ne_of_gt hgt]
  · simp [BitVec.getLsbD_of_ge _ _ (Nat.le_of_not_lt hj)]

/-- A word and its negative have the lowest bit in common, and no other. -/
theorem lowest_eq (h : IsLowest w k) : lowest w = k := by
  have hneg : -w = ~~~(w - 1) := by
    rw [show w - 1 = ~~~(-w) from (BitVec.not_neg w).symm, BitVec.not_not]
  have hcommon : w &&& -w = BitVec.twoPow 64 k := by
    refine BitVec.eq_of_getLsbD_eq fun j hj => ?_
    rw [hneg, BitVec.getLsbD_and, BitVec.getLsbD_not, h.getLsbD_sub_one hj, BitVec.getLsbD_twoPow]
    rcases Nat.lt_trichotomy j k with hlt | rfl | hgt
    · simp [h.clear j hlt, Nat.ne_of_gt hlt]
    · simp [h.set, hj]
    · cases w.getLsbD j <;> simp [Nat.lt_asymm hgt, Nat.ne_of_gt hgt, Nat.ne_of_lt hgt]
  unfold lowest
  rw [hcommon, BitVec.toNat_twoPow, Nat.mod_eq_of_lt (Nat.pow_lt_pow_right (by omega) h.lt),
    Nat.log2_two_pow]

end IsLowest

variable {w : Word} {k : Nat}

/-- By induction on the bits that are left. -/
theorem mem_wordOnes : k ∈ wordOnes w ↔ w.getLsbD k = true := by
  fun_induction wordOnes w with
  | case1 => simp
  | case2 w hw ih =>
    obtain ⟨l, hl⟩ := exists_isLowest hw
    rw [List.mem_cons, ih, hl.lowest_eq, hl.getLsbD_and_sub_one]
    by_cases hk : k = l
    · simp [hk, hl.set]
    · simp [hk]

theorem lt_of_mem_wordOnes (h : k ∈ wordOnes w) : k < 64 := BitVec.lt_of_getLsbD (mem_wordOnes.mp h)

/-- What is left when the lowest bit is cleared is above it. -/
theorem pairwise_wordOnes (w : Word) : (wordOnes w).Pairwise (· < ·) := by
  fun_induction wordOnes w with
  | case1 => exact .nil
  | case2 w hw ih =>
    obtain ⟨l, hl⟩ := exists_isLowest hw
    refine .cons (fun j hj => ?_) ih
    rw [mem_wordOnes, hl.getLsbD_and_sub_one, Bool.and_eq_true, decide_eq_true_eq] at hj
    rw [hl.lowest_eq]
    by_contra hlt
    rw [hl.clear j (by omega)] at hj
    exact absurd hj.1 (by simp)

theorem wordOnes_eq_filter (w : Word) : wordOnes w = (List.range 64).filter w.getLsbD := by
  refine List.Perm.eq_of_pairwise (fun _ _ _ _ h h' => absurd h' (Nat.lt_asymm h)) (pairwise_wordOnes w)
    (List.pairwise_lt_range.filter _) ?_
  refine (List.perm_ext_iff_of_nodup ((pairwise_wordOnes w).imp Nat.ne_of_lt)
    (List.nodup_range.filter _)).mpr fun k => ?_
  rw [mem_wordOnes, List.mem_filter, List.mem_range]
  exact ⟨fun h => ⟨BitVec.lt_of_getLsbD h, h⟩, And.right⟩

theorem cpopNatRec_eq (w : Word) (n acc : Nat) :
    w.cpopNatRec n acc = acc + (List.range n).countP w.getLsbD := by
  induction n generalizing acc with
  | zero => simp
  | succ n ih =>
    rw [BitVec.cpopNatRec_succ, ih, List.range_succ, List.countP_append, List.countP_singleton]
    cases w.getLsbD n <;> simp; omega

theorem length_wordOnes (w : Word) : (wordOnes w).length = w.cpop.toNat := by
  rw [BitVec.toNat_cpop, cpopNatRec_eq, wordOnes_eq_filter, List.countP_eq_length_filter,
    Nat.zero_add]

end ShadingMachine.Mask

namespace ShadingMachine

namespace Mask

theorem mem_ones {m : Mask} {i : Nat} (hi : i < m.size) : i ∈ m.ones ↔ m.get i = true := by
  have hlen : i / 64 < m.words.length := by rw [m.length_words]; unfold wordCount; omega
  have h64 : i % 64 < 64 := Nat.mod_lt _ (by omega)
  have hget : m.get i = (m.words[i / 64]).getLsbD (i % 64) := by
    simp [get, hi, hlen]
  rw [hget, ← mem_wordOnes]
  simp only [ones, List.mem_flatMap, List.mem_map, List.mem_zipIdx_iff_getElem?, Prod.exists]
  constructor
  · rintro ⟨w, k, hw, j, hj, rfl⟩
    have hj64 : j < 64 := lt_of_mem_wordOnes hj
    have hk : (64 * k + j) / 64 = k := by omega
    have hr : (64 * k + j) % 64 = j := by omega
    simp only [hk, hr]
    rw [List.getElem?_eq_getElem (by simpa only [hk] using hlen)] at hw
    cases hw
    exact hj
  · intro h
    exact ⟨_, _, List.getElem?_eq_getElem hlen, i % 64, h, by omega⟩

@[simp] theorem size_foldl_insert (points : List Nat) (m : Mask) :
    (points.foldl insert m).size = m.size := by
  induction points generalizing m with
  | nil => rfl
  | cons k points ih => simpa using ih (m.insert k)

theorem get_foldl_insert (points : List Nat) (m : Mask) {i : Nat} (hi : i < m.size) :
    (points.foldl insert m).get i = (m.get i || decide (i ∈ points)) := by
  induction points generalizing m with
  | nil => simp
  | cons k points ih =>
    rw [List.foldl_cons, ih (m.insert k) (by simpa using hi), get_insert]
    by_cases hk : k = i
    · subst hk
      simp [hi]
    · simp [hk, Ne.symm hk]

/-- The bit of a point of a grid, and that of a grid of one point. -/
structure SameBit (n i : Nat) (m o : Mask) : Prop where
  size : m.size = n
  size_one : o.size = 1
  get : m.get i = o.get 0

variable {n i : Nat} {m m' o o' : Mask}

theorem SameBit.empty (n i : Nat) : SameBit n i (.empty n) (.empty 1) := ⟨rfl, rfl, by simp⟩

theorem SameBit.full (hi : i < n) : SameBit n i (.full n) (.full 1) := ⟨rfl, rfl, by simp [hi]⟩

theorem SameBit.complement (hi : i < n) (h : SameBit n i m o) :
    SameBit n i m.complement o.complement where
  size := h.size
  size_one := h.size_one
  get := by simp [h.get, h.size, h.size_one, hi]

theorem SameBit.inter (h : SameBit n i m o) (h' : SameBit n i m' o') :
    SameBit n i (m.inter m') (o.inter o') where
  size := h.size
  size_one := h.size_one
  get := by
    rw [get_inter (h.size.trans h'.size.symm), get_inter (h.size_one.trans h'.size_one.symm),
      h.get, h'.get]

end Mask

namespace RunningStates

theorem get_setCurrent (s : RunningStates) (f : Nat → Bool) {i : Nat} (hi : i < s.size) :
    (s.setCurrent f).current.get i = (s.running.get i && f i) := by
  have hmem : i ∈ s.running.ones.filter f ↔ s.running.get i = true ∧ f i = true := by
    rw [List.mem_filter, Mask.mem_ones hi]
  have hempty : i < (Mask.empty s.running.size).size := hi
  show (List.foldl Mask.insert (.empty s.running.size) (s.running.ones.filter f)).get i = _
  rw [Mask.get_foldl_insert _ _ hempty, Mask.get_empty, Bool.false_or]
  simp [hmem]

/-- The states of a point of a grid, and those of a grid of one point. -/
structure SamePoint (n i : Nat) (s t : RunningStates) : Prop where
  running : Mask.SameBit n i s.running t.running
  current : Mask.SameBit n i s.current t.current
  saved : List.Forall₂ (Mask.SameBit n i) s.saved t.saved

namespace SamePoint

variable {n i : Nat} {s t : RunningStates}

theorem push (h : SamePoint n i s t) : SamePoint n i s.push t.push :=
  ⟨h.running, h.current, .cons h.running h.saved⟩

/-- Both are in a scope or none is. -/
theorem pop? (h : SamePoint n i s t) : Option.Rel (SamePoint n i) s.pop? t.pop? := by
  have hs := h.saved
  unfold RunningStates.pop?
  generalize s.saved = ms at hs
  generalize t.saved = os at hs
  cases hs with
  | nil => exact .none
  | cons hm hms => exact .some ⟨hm, h.current, hms⟩

theorem select (h : SamePoint n i s t) : SamePoint n i s.select t.select :=
  ⟨h.current, h.current, h.saved⟩

theorem invert (hi : i < n) (h : SamePoint n i s t) : SamePoint n i s.invert t.invert := by
  have hs := h.saved
  have hc := h.running.complement hi
  obtain ⟨running, current, saved, spare⟩ := s
  obtain ⟨running', current', saved', spare'⟩ := t
  cases hs with
  | nil => exact ⟨hc, h.current, .nil⟩
  | cons hm hms => exact ⟨hc.inter hm, h.current, .cons hm hms⟩

theorem clearCurrent (h : SamePoint n i s t) : SamePoint n i s.clearCurrent t.clearCurrent := by
  refine ⟨h.running, ?_, h.saved⟩
  have hs := h.running.size
  have ht := h.running.size_one
  simpa only [RunningStates.clearCurrent, hs, ht] using Mask.SameBit.empty n i

/-- A condition counts at the running points only. -/
theorem setCurrent (hi : i < n) (h : SamePoint n i s t) {f g : Nat → Bool}
    (hfg : s.running.get i = true → f i = g 0) :
    SamePoint n i (s.setCurrent f) (t.setCurrent g) := by
  have hs : i < s.size := by unfold RunningStates.size; rw [h.running.size]; exact hi
  have ht : 0 < t.size := by unfold RunningStates.size; rw [h.running.size_one]; omega
  refine ⟨h.running, ⟨?_, ?_, ?_⟩, h.saved⟩
  · simpa [RunningStates.setCurrent] using h.running.size
  · simpa [RunningStates.setCurrent] using h.running.size_one
  · rw [get_setCurrent s f hs, get_setCurrent t g ht, ← h.running.get]
    cases hr : s.running.get i with
    | false => rfl
    | true => rw [hfg hr]

end SamePoint

end RunningStates

namespace Mask

/-- The bit of any place, also one above the size. -/
def bit (m : Mask) (i : Nat) : Bool := (m.words.getD (i / 64) 0).getLsbD (i % 64)

theorem get_eq_bit {m : Mask} {i : Nat} (hi : i < m.size) : m.get i = m.bit i := by
  simp [get, bit, hi]

/-- Without bits above the size. -/
def Tidy (m : Mask) : Prop := ∀ i, m.bit i = true → i < m.size

theorem tidy_empty (n : Nat) : (empty n).Tidy := by
  intro i hi
  simp only [bit, empty, List.getD_eq_getElem?_getD, List.getElem?_replicate] at hi
  split at hi <;> simp at hi

theorem Tidy.insert {m : Mask} (h : m.Tidy) (k : Nat) : (m.insert k).Tidy := by
  intro i hi
  rw [size_insert]
  unfold Mask.insert at hi
  split at hi
  · rename_i hk
    have hlen : k / 64 < m.words.length := by rw [m.length_words]; unfold wordCount; omega
    simp only [bit, getD_modify _ _ hlen] at hi
    by_cases hw : k / 64 = i / 64
    · rw [if_pos hw, BitVec.getLsbD_or, Bool.or_eq_true, BitVec.getLsbD_twoPow] at hi
      rcases hi with hi | hi
      · exact h i hi
      · have hmod : k % 64 = i % 64 := by simpa using (Bool.and_eq_true_iff.mp hi).2
        omega
    · rw [if_neg hw] at hi
      exact h i hi
  · exact h i hi

theorem tidy_foldl_insert {m : Mask} (h : m.Tidy) (points : List Nat) :
    (points.foldl Mask.insert m).Tidy := by
  induction points generalizing m with
  | nil => exact h
  | cons k points ih => exact ih (h.insert k)

/-- A bit that is left after trimming is below the size. -/
theorem lt_of_getLsbD_trim {n i : Nat} {ws : List Word} (hw : ws.length = wordCount n)
    (h : ((trim n ws).getD (i / 64) 0).getLsbD (i % 64) = true) : i < n := by
  have hlen : i / 64 < ws.length := by
    by_contra hge
    rw [List.getD_eq_getElem?_getD, List.getElem?_eq_none (by simpa using hge)] at h
    simp at h
  unfold wordCount at hw
  unfold trim at h
  split at h
  · omega
  · by_cases hlast : ws.length - 1 = i / 64
    · have hbit : (BitVec.ofNat 64 ((1 <<< (n % 64)) - 1)).getLsbD (i % 64) = true := by
        rw [getD_modify _ _ (by omega), if_pos hlast, BitVec.getLsbD_and, Bool.and_eq_true] at h
        exact h.2
      rw [BitVec.getLsbD_ofNat, Nat.one_shiftLeft, Nat.testBit_two_pow_sub_one] at hbit
      have hmod : i % 64 < n % 64 := by simpa using (Bool.and_eq_true_iff.mp hbit).2
      omega
    · omega

theorem tidy_mapWords (f : Word → Word) (m : Mask) : (m.mapWords f).Tidy := fun _ hi =>
  lt_of_getLsbD_trim (by simp [m.length_words]) hi

theorem getLsbD_zipFront_and (as bs : List Word) (k j : Nat)
    (h : ((zipFront (· &&& ·) as bs).getD k 0).getLsbD j = true) :
    (as.getD k 0).getLsbD j = true := by
  fun_induction zipFront (· &&& ·) as bs generalizing k with
  | case1 a as b bs ih =>
    cases k with
    | zero =>
      simp only [List.getD_cons_zero, BitVec.getLsbD_and, Bool.and_eq_true] at h
      exact h.1
    | succ k => exact ih k h
  | case2 => exact h
  | case3 => simp at h

/-- What both have is in the first. -/
theorem Tidy.inter {m : Mask} (h : m.Tidy) (o : Mask) : (m.inter o).Tidy := fun i hi =>
  h i (getLsbD_zipFront_and m.words o.words _ _ hi)

theorem hasNone_iff {m : Mask} (h : m.Tidy) :
    m.hasNone = true ↔ ∀ i < m.size, m.get i = false := by
  have hwords : m.hasNone = true ↔ ∀ i, m.bit i = false := by
    simp only [hasNone, List.all_eq_true, beq_iff_eq]
    constructor
    · intro hzero i
      unfold bit
      rw [List.getD_eq_getElem?_getD]
      cases hw : m.words[i / 64]? with
      | none => simp
      | some w => simp [hzero w (List.mem_of_getElem? hw)]
    · intro hbit w hw
      obtain ⟨k, hk, rfl⟩ := List.mem_iff_getElem.mp hw
      refine BitVec.eq_of_getLsbD_eq fun j hj => ?_
      have hkj := hbit (64 * k + j)
      have hdiv : (64 * k + j) / 64 = k := by omega
      have hmod : (64 * k + j) % 64 = j := by omega
      simpa [bit, hdiv, hmod, List.getD_eq_getElem?_getD, hk] using hkj
  rw [hwords]
  constructor
  · exact fun hbit i hi => (get_eq_bit hi).trans (hbit i)
  · intro hget i
    cases hi : m.bit i with
    | false => rfl
    | true =>
      have hlt := h i hi
      rw [← get_eq_bit hlt, hget i hlt] at hi
      cases hi

end Mask

namespace RunningStates

theorem tidy_setCurrent (s : RunningStates) (f : Nat → Bool) : (s.setCurrent f).current.Tidy :=
  Mask.tidy_foldl_insert (Mask.tidy_empty _) _

end RunningStates

end ShadingMachine
