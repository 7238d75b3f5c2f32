import Mathlib.Data.Finset.Card
import Mathlib.Data.Finset.Range
import ShadingMachine.Proofs.Mask.Scopes

/-! Masks as finite sets. A mask without bits above its size says in every way of asking - point by
point, by counting, by listing and by comparing - what one set of points is, and only such a mask
does. -/
namespace ShadingMachine

/-- A set of points of a grid of `size` points. -/
@[ext]
structure PointSet where
  size : Nat
  members : Finset Nat
  lt_size : ∀ i ∈ members, i < size

namespace Mask

variable {m o : Mask} {s : PointSet} {i : Nat}

/-- How many bits the words have. -/
def places (m : Mask) : Nat := 64 * m.words.length

theorem size_le_places (m : Mask) : m.size ≤ m.places := by
  unfold places
  rw [m.length_words]
  unfold wordCount
  omega

theorem bit_of_places_le (h : m.places ≤ i) : m.bit i = false := by
  have hk : m.words.length ≤ i / 64 := by unfold places at h; omega
  simp [bit, List.getD_eq_getElem?_getD, List.getElem?_eq_none hk]

theorem lt_places_of_bit (h : m.bit i = true) : i < m.places := by
  by_contra hge
  rw [bit_of_places_le (Nat.le_of_not_lt hge)] at h
  cases h

theorem bit_eq_of_words {k j : Nat} (hk : k < m.words.length) (hj : j < 64) :
    m.bit (64 * k + j) = m.words[k].getLsbD j := by
  have hdiv : (64 * k + j) / 64 = k := by omega
  have hmod : (64 * k + j) % 64 = j := by omega
  simp [bit, hdiv, hmod, List.getD_eq_getElem?_getD, hk]

theorem mem_ones_iff_bit : i ∈ m.ones ↔ m.bit i = true := by
  refine ⟨bit_eq_true_of_mem_ones, fun h => ?_⟩
  have hk : i / 64 < m.words.length := by
    have hlt := lt_places_of_bit h
    unfold places at hlt
    omega
  have hi : 64 * (i / 64) + i % 64 = i := by omega
  rw [← hi, bit_eq_of_words hk (Nat.mod_lt _ (by omega)), ← mem_wordOnes] at h
  simp only [ones, List.mem_flatMap, List.mem_map, List.mem_zipIdx_iff_getElem?, Prod.exists]
  exact ⟨m.words[i / 64], i / 64, List.getElem?_eq_getElem hk, i % 64, h, hi⟩

theorem Tidy.bit_eq (h : m.Tidy) (i : Nat) : m.bit i = m.get i := by
  by_cases hi : i < m.size
  · exact (get_eq_bit hi).symm
  · rw [get_of_size_le (Nat.le_of_not_lt hi)]
    cases hb : m.bit i with
    | false => rfl
    | true => exact absurd (h i hb) hi

/-- A mask without bits above its size is known by its members. -/
theorem Tidy.eq_of_get (hm : m.Tidy) (ho : o.Tidy) (hsize : m.size = o.size)
    (hget : ∀ i, m.get i = o.get i) : m = o := by
  have hlength : m.words.length = o.words.length := by rw [m.length_words, o.length_words, hsize]
  have hwords : m.words = o.words := by
    refine List.ext_getElem hlength fun k hk hk' => BitVec.eq_of_getLsbD_eq fun j hj => ?_
    rw [← bit_eq_of_words hk hj, ← bit_eq_of_words hk' hj, hm.bit_eq, ho.bit_eq, hget]
  cases m
  cases o
  cases hwords
  cases hsize
  rfl

/-- The points of the grid that are in the mask. -/
def toSet (m : Mask) : PointSet :=
  ⟨m.size, {i ∈ Finset.range m.size | m.get i = true}, by simp +contextual⟩

@[simp] theorem size_toSet (m : Mask) : m.toSet.size = m.size := rfl

@[simp] theorem mem_toSet : i ∈ m.toSet.members ↔ m.get i = true := by
  simpa [toSet] using lt_size_of_get

theorem toSet_eq_iff : m.toSet = s ↔ m.size = s.size ∧ ∀ i, m.get i = decide (i ∈ s.members) := by
  rw [PointSet.ext_iff, size_toSet, Finset.ext_iff]
  refine and_congr_right fun _ => forall_congr' fun i => ?_
  rw [mem_toSet, Bool.eq_iff_iff (b := decide _), decide_eq_true_eq]

/-- Every way of asking a mask about its members gives those of the set. -/
structure Describes (m : Mask) (s : PointSet) : Prop where
  size : m.size = s.size
  get : ∀ i, m.get i = decide (i ∈ s.members)
  count : m.count = s.members.card
  hasNone : m.hasNone = true ↔ s.members = ∅
  hasAll : m.hasAll = true ↔ s.members = Finset.range s.size
  ascending : m.ones.Pairwise (· < ·)
  mem_ones : ∀ i, i ∈ m.ones ↔ i ∈ s.members
  /-- Compared with another mask without bits above its size. -/
  eq_iff : ∀ o : Mask, o.Tidy → (m = o ↔ s.size = o.size ∧ s.members = o.toSet.members)

theorem Tidy.describes (h : m.Tidy) : m.Describes m.toSet := by
  have hmem (i : Nat) : i ∈ m.ones ↔ i ∈ m.toSet.members := by
    rw [mem_ones_iff_bit, h.bit_eq, mem_toSet]
  have hcount : m.count = m.toSet.members.card := by
    rw [count_eq_length_ones, ← List.toFinset_card_of_nodup m.nodup_ones]
    exact congrArg _ (Finset.ext fun i => by rw [List.mem_toFinset, hmem])
  have hsubset : m.toSet.members ⊆ Finset.range m.size := Finset.filter_subset ..
  exact
    { size := rfl
      get := (toSet_eq_iff.mp rfl).2
      count := hcount
      hasNone := by rw [h.hasNone_iff, ← h.count_eq, hcount, Finset.card_eq_zero]
      hasAll := by
        rw [hasAll, beq_iff_eq, hcount, size_toSet]
        refine ⟨fun hall => Finset.eq_of_subset_of_card_le hsubset ?_, fun hall => ?_⟩
        · rw [Finset.card_range]
          exact hall.ge
        · rw [hall, Finset.card_range]
      ascending := m.pairwise_ones
      mem_ones := hmem
      eq_iff := fun o ho => by
        refine ⟨fun hmo => hmo ▸ ⟨rfl, rfl⟩, fun hmo => h.eq_of_get ho hmo.1 fun i => ?_⟩
        rw [Bool.eq_iff_iff, ← mem_toSet, ← mem_toSet, hmo.2] }

/-- Just the masks without bits above their size say the same in every way. -/
theorem describes_iff : m.Describes s ↔ m.Tidy ∧ m.toSet = s := by
  constructor
  · intro h
    refine ⟨fun i hi => ?_, toSet_eq_iff.mpr ⟨h.size, h.get⟩⟩
    have hmem : i ∈ s.members := (h.mem_ones i).mp (mem_ones_iff_bit.mpr hi)
    exact h.size ▸ s.lt_size i hmem
  · rintro ⟨htidy, rfl⟩
    exact htidy.describes

theorem describes_iff_bit :
    m.Describes s ↔ m.size = s.size ∧ ∀ i, m.bit i = decide (i ∈ s.members) := by
  rw [describes_iff, toSet_eq_iff]
  constructor
  · rintro ⟨htidy, hsize, hget⟩
    exact ⟨hsize, fun i => (htidy.bit_eq i).trans (hget i)⟩
  · rintro ⟨hsize, hbit⟩
    have htidy : m.Tidy := fun i hi => hsize ▸ s.lt_size i (by simpa [hbit] using hi)
    exact ⟨htidy, hsize, fun i => (htidy.bit_eq i).symm.trans (hbit i)⟩

end Mask

end ShadingMachine
