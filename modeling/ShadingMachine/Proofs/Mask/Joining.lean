import Mathlib.Data.Finset.SDiff
import ShadingMachine.Proofs.Mask.Sets

/-! Masks joined with masks of any size. A mask keeps its size, but the other one works on it word by
word: it leaves the words alone for which it has none, and it brings along bits that are above the
size. So a join is that of the two sets only if no bit is where these two matter. -/
namespace ShadingMachine

/-- How two sets are joined. -/
inductive Joint where
  | inter
  | union
  | diff
deriving DecidableEq

namespace Joint

def apply : Joint → Mask → Mask → Mask
  | inter => Mask.inter
  | union => Mask.union
  | diff => Mask.diff

def members : Joint → Finset Nat → Finset Nat → Finset Nat
  | inter => (· ∩ ·)
  | union => (· ∪ ·)
  | diff => (· \ ·)

/-- Whether a point is in the joined set, if it is or is not in the two. -/
def holds : Joint → Bool → Bool → Bool
  | inter => (· && ·)
  | union => (· || ·)
  | diff => fun a b => a && !b

@[simp] theorem size_apply (j : Joint) (m o : Mask) : (j.apply m o).size = m.size := by
  cases j <;> rfl

theorem mem_members (j : Joint) (s t : Finset Nat) (i : Nat) :
    i ∈ j.members s t ↔ j.holds (decide (i ∈ s)) (decide (i ∈ t)) = true := by
  cases j <;> simp [members, holds]

end Joint

/-- Joined with a set of any size, a set keeps its own. -/
def PointSet.join (j : Joint) (s t : PointSet) : PointSet :=
  ⟨s.size, {i ∈ j.members s.members t.members | i < s.size}, by simp⟩

namespace Mask

variable {m o : Mask} {i : Nat}

theorem getD_zipFront_of_le (f : Word → Word → Word) (as bs : List Word) {k : Nat}
    (hb : bs.length ≤ k) : (zipFront f as bs).getD k 0 = as.getD k 0 := by
  fun_induction zipFront f as bs generalizing k with
  | case1 a as b bs ih =>
    cases k with
    | zero => simp at hb
    | succ k => simpa using ih (by simpa using hb)
  | case2 | case3 => rfl

theorem bit_zipWords (f : Word → Word → Word) (m o : Mask) (i : Nat) :
    (m.zipWords f o).bit i =
      if i < m.places ∧ i < o.places then
        (f (m.words.getD (i / 64) 0) (o.words.getD (i / 64) 0)).getLsbD (i % 64)
      else m.bit i := by
  split
  · rename_i hi
    have hm : i / 64 < m.words.length := by unfold places at hi; omega
    have ho : i / 64 < o.words.length := by unfold places at hi; omega
    simp only [bit, zipWords, getD_zipFront f _ _ hm ho]
  · rename_i hi
    by_cases hm : i < m.places
    · have ho : o.words.length ≤ i / 64 := by unfold places at hi hm; omega
      simp only [bit, zipWords, getD_zipFront_of_le f _ _ ho]
    · have hz : (m.zipWords f o).places ≤ i := by simpa [places, zipWords] using hm
      rw [bit_of_places_le hz, bit_of_places_le (Nat.le_of_not_lt hm)]

theorem bit_apply (j : Joint) (m o : Mask) (i : Nat) :
    (j.apply m o).bit i =
      if i < m.places ∧ i < o.places then j.holds (m.bit i) (o.bit i) else m.bit i := by
  have hj : i % 64 < 64 := Nat.mod_lt _ (by omega)
  cases j with
  | inter => exact (bit_zipWords _ m o i).trans (by simp only [Joint.holds, bit, BitVec.getLsbD_and])
  | union => exact (bit_zipWords _ m o i).trans (by simp only [Joint.holds, bit, BitVec.getLsbD_or])
  | diff =>
    refine (bit_zipWords _ m o i).trans ?_
    simp only [Joint.holds, bit, BitVec.getLsbD_and, BitVec.getLsbD_not, hj, decide_true,
      Bool.true_and]

/-- The join of two masks says in every way what the join of their sets says. -/
def Joins (j : Joint) (m o : Mask) : Prop := (j.apply m o).Describes (m.toSet.join j o.toSet)

theorem mem_join (j : Joint) (m o : Mask) (i : Nat) :
    i ∈ (m.toSet.join j o.toSet).members ↔ i < m.size ∧ j.holds (m.get i) (o.get i) = true := by
  rw [PointSet.join, Finset.mem_filter, j.mem_members, and_comm]
  simp

theorem joins_iff_bit (j : Joint) (m o : Mask) :
    Joins j m o ↔ ∀ i, (if i < m.places ∧ i < o.places then j.holds (m.bit i) (o.bit i) else m.bit i) =
      (decide (i < m.size) && j.holds (m.get i) (o.get i)) := by
  have hsize : (j.apply m o).size = (m.toSet.join j o.toSet).size := j.size_apply m o
  rw [Joins, describes_iff_bit, and_iff_right hsize]
  refine forall_congr' fun i => ?_
  rw [bit_apply]
  simp only [mem_join, Bool.decide_and, Bool.decide_eq_true]

end Mask

/-- Where a bit has to be in one of the masks, or must not be, for the join to be that of the two
sets. -/
def Joint.Faithful : Joint → Mask → Mask → Prop
  | inter, m, o => ∀ i, m.bit i = true → m.size ≤ i ∨ o.size ≤ i → i < o.places ∧ o.bit i = false
  | union, m, o => ∀ i, (m.size ≤ i → m.bit i = false ∧ (i < m.places → o.bit i = false)) ∧
      (i < m.size → o.size ≤ i → o.bit i = true → m.bit i = true)
  | diff, m, o => ∀ i, m.bit i = true →
      (m.size ≤ i → o.bit i = true) ∧ (i < m.size → o.size ≤ i → o.bit i = false)

/-- The same for masks without bits above their size: an intersection needs a word for every member,
and a union must not bring members above the size into the last word. -/
def Joint.FitsWords : Joint → Mask → Mask → Prop
  | inter, m, o => ∀ i, m.get i = true → i < o.places
  | union, m, o => ∀ i, o.get i = true → i < m.size ∨ m.places ≤ i
  | diff, _, _ => True

namespace Mask

variable {m o : Mask}

/-- At each place two bits matter, and each of them is in the words of its mask. -/
theorem joins_iff_faithful (j : Joint) (m o : Mask) : Joins j m o ↔ j.Faithful m o := by
  have hm := m.size_le_places
  have ho := o.size_le_places
  have hmi (i : Nat) : m.bit i = true → i < m.places := lt_places_of_bit
  have hoi (i : Nat) : o.bit i = true → i < o.places := lt_places_of_bit
  have hget (m : Mask) (i : Nat) : m.get i = (decide (i < m.size) && m.bit i) := rfl
  rw [joins_iff_bit]
  cases j with
  | inter => exact forall_congr' fun i => by grind [Joint.holds]
  | union => exact forall_congr' fun i => by grind [Joint.holds]
  | diff => exact forall_congr' fun i => by grind [Joint.holds]

theorem joins_iff_fitsWords (j : Joint) (hm : m.Tidy) (ho : o.Tidy) :
    Joins j m o ↔ j.FitsWords m o := by
  have hmp := m.size_le_places
  have hop := o.size_le_places
  have hmi (i : Nat) : m.get i = true → i < m.size := lt_size_of_get
  have hoi (i : Nat) : o.get i = true → i < o.size := lt_size_of_get
  rw [joins_iff_bit]
  simp only [hm.bit_eq, ho.bit_eq]
  cases j with
  | inter => exact forall_congr' fun i => by grind [Joint.holds]
  | union => exact forall_congr' fun i => by grind [Joint.holds]
  | diff => exact iff_of_true (fun i => by grind [Joint.holds]) trivial

/-- Sets of one size are joined as sets. -/
theorem joins_of_size_eq (j : Joint) (hm : m.Tidy) (ho : o.Tidy) (h : m.size = o.size) :
    Joins j m o := by
  rw [joins_iff_fitsWords j hm ho]
  cases j with
  | inter => exact fun i hi => (h ▸ lt_size_of_get hi).trans_le o.size_le_places
  | union => exact fun i hi => .inl (h ▸ lt_size_of_get hi)
  | diff => trivial

/-- A mask that is joined with another keeps its size. Each of its points is in the join if it is in
that of the two sets, except that a point for which the other mask has no word stays as it is and one
above the size of the other mask meets its bits there. What the join says of its members in the other
ways of asking is true only if the bits are where the words need them. -/
theorem joined_iff (j : Joint) (m o : Mask) :
    (j.apply m o).size = m.size ∧
    (∀ i < m.size, (j.apply m o).get i =
      if i < o.places then j.holds (m.get i) (o.bit i) else m.get i) ∧
    (Joins j m o ↔ j.Faithful m o) ∧
    (m.Tidy → o.Tidy → (Joins j m o ↔ j.FitsWords m o)) := by
  refine ⟨j.size_apply m o, fun i hi => ?_, joins_iff_faithful j m o, joins_iff_fitsWords j⟩
  rw [get_eq_bit (by simpa using hi), bit_apply, get_eq_bit hi]
  simp only [hi.trans_le m.size_le_places, true_and]

/-- The second word of the longer set is not looked at. -/
theorem joined_iff_second_word :
    let o := (empty 70).insert 66
    Joins .union (empty 3) o ∧ ¬Joins .inter o (empty 3) := by
  intro o
  have ho : o.Tidy := (tidy_empty 70).insert 66
  constructor
  · refine ((joined_iff .union (empty 3) o).2.2.2 (tidy_empty 3) ho).mpr fun i hi => .inr ?_
    have h66 : i = 66 := by simpa [o, get_insert, eq_comm] using hi
    exact h66 ▸ by decide
  · intro h
    have h66 := ((joined_iff .inter o (empty 3)).2.2.2 ho (tidy_empty 3)).mp h 66 (by decide)
    exact absurd h66 (by decide)

/-- A union with a longer set has more members than points, and an intersection with a shorter one
keeps members that the shorter set does not have. -/
theorem not_joins_of_size_ne :
    ¬Joins .union (empty 3) (full 5) ∧ ¬Joins .inter (full 65) (full 1) := by
  constructor
  · intro h
    have h3 : 3 ∈ ((empty 3).toSet.join .union (full 5).toSet).members :=
      (h.mem_ones 3).mp (mem_ones_iff_bit.mpr (by decide))
    exact absurd ((mem_join ..).mp h3).1 (by decide)
  · intro h
    have h64 : decide (64 ∈ ((full 65).toSet.join .inter (full 1).toSet).members) = true :=
      (h.get 64).symm.trans (by decide)
    exact absurd ((mem_join ..).mp (of_decide_eq_true h64)).2 (by decide)

end Mask

end ShadingMachine
