import ShadingMachine.Proofs.Mask.Joining

/-! Sequences of operations on masks. As long as masks are joined with masks of their own size, no
mask gets a bit above its size, and each stands for the set that comes from the same operations on
sets. -/
namespace ShadingMachine

namespace PointSet

def empty (n : Nat) : PointSet := ⟨n, ∅, by simp⟩

def full (n : Nat) : PointSet := ⟨n, Finset.range n, by simp⟩

def fill (n : Nat) (value : Bool) : PointSet := if value then full n else empty n

def ofBools (bs : List Bool) : PointSet :=
  ⟨bs.length, {i ∈ Finset.range bs.length | bs[i]? = some true}, by simp +contextual⟩

/-- A point outside the grid is in no set. -/
def insert (s : PointSet) (i : Nat) : PointSet :=
  ⟨s.size, {k ∈ Insert.insert i s.members | k < s.size}, by simp⟩

def erase (s : PointSet) (i : Nat) : PointSet :=
  ⟨s.size, s.members.erase i, fun k hk => s.lt_size k (Finset.mem_of_mem_erase hk)⟩

def setValue (s : PointSet) (i : Nat) (value : Bool) : PointSet :=
  if value then s.insert i else s.erase i

def complement (s : PointSet) : PointSet :=
  ⟨s.size, Finset.range s.size \ s.members, by simp +contextual⟩

end PointSet

/-- What can be done to a set, the other sets being known by number. -/
inductive SetOperation where
  | empty (n : Nat)
  | full (n : Nat)
  | ofBools (bs : List Bool)
  | reset (n : Nat) (value : Bool)
  | setAll (value : Bool)
  | insert (i : Nat)
  | erase (i : Nat)
  | setValue (i : Nat) (value : Bool)
  | copy (source : Nat)
  | complement
  | join (how : Joint) (source : Nat)

namespace SetOperation

/-- To a mask, whatever it was. -/
def apply (masks : Nat → Mask) (m : Mask) : SetOperation → Mask
  | empty n => .empty n
  | full n => .full n
  | ofBools bs => .ofBools bs
  | reset n value => .fill n value
  | setAll value => m.setAll value
  | insert i => m.insert i
  | erase i => m.erase i
  | setValue i value => m.setValue i value
  | copy source => masks source
  | complement => m.complement
  | join how source => how.apply m (masks source)

/-- To a set of points. -/
def applySet (sets : Nat → PointSet) (s : PointSet) : SetOperation → PointSet
  | empty n => .empty n
  | full n => .full n
  | ofBools bs => .ofBools bs
  | reset n value => .fill n value
  | setAll value => .fill s.size value
  | insert i => s.insert i
  | erase i => s.erase i
  | setValue i value => s.setValue i value
  | copy source => sets source
  | complement => s.complement
  | join how source => s.join how (sets source)

/-- A set is joined with one of its own size. -/
def Fits (sets : Nat → PointSet) (s : PointSet) : SetOperation → Prop
  | join _ source => s.size = (sets source).size
  | _ => True

instance (sets : Nat → PointSet) (s : PointSet) : (o : SetOperation) → Decidable (o.Fits sets s)
  | join _ source => inferInstanceAs (Decidable (s.size = (sets source).size))
  | empty _ | full _ | ofBools _ | reset _ _ | setAll _ | insert _ | erase _ | setValue _ _ | copy _
  | complement => .isTrue trivial

end SetOperation

namespace Mask

variable {m o : Mask} {i : Nat}

theorem Tidy.erase (h : m.Tidy) (k : Nat) : (m.erase k).Tidy := by
  intro i hi
  rw [size_erase]
  refine h i ?_
  unfold Mask.erase at hi
  split at hi
  · rename_i hk
    have hlen : k / 64 < m.words.length := by rw [m.length_words]; unfold wordCount; omega
    simp only [bit, getD_modify _ _ hlen] at hi ⊢
    split at hi
    · rw [BitVec.getLsbD_and, Bool.and_eq_true] at hi
      exact hi.1
    · exact hi
  · exact hi

theorem Tidy.setValue (h : m.Tidy) (k : Nat) (value : Bool) : (m.setValue k value).Tidy := by
  cases value with
  | true => exact h.insert k
  | false => exact h.erase k

theorem get_setValue (m : Mask) (k : Nat) (value : Bool) (i : Nat) :
    (m.setValue k value).get i = if k = i ∧ k < m.size then value else m.get i := by
  by_cases hk : k = i
  · subst hk
    by_cases hlt : k < m.size
    · cases value <;> simp [setValue, get_insert, get_erase, hlt]
    · have hget : m.get k = false := get_of_size_le (Nat.le_of_not_lt hlt)
      cases value <;> simp [setValue, get_insert, get_erase, hlt, hget]
  · cases value <;> simp [setValue, get_insert, get_erase, hk]

/-- By induction on the values that are still to be written, the first of them at `n`. -/
theorem foldl_setValue (bs : List Bool) (n : Nat) (hm : m.Tidy) (hn : n + bs.length = m.size) :
    let w := (bs.zipIdx n).foldl (fun m p => m.setValue p.2 p.1) m
    w.size = m.size ∧ w.Tidy ∧ ∀ i, w.get i = if n ≤ i then bs[i - n]?.getD false else m.get i := by
  induction bs generalizing n m with
  | nil =>
    refine ⟨rfl, hm, fun i => ?_⟩
    by_cases hi : n ≤ i
    · have hsize : m.size ≤ i := by simpa [← hn] using hi
      simp [hi, get_of_size_le hsize]
    · simp [hi]
  | cons b bs ih =>
    have hlt : n < m.size := by rw [List.length_cons] at hn; omega
    have hrest : n + 1 + bs.length = (m.setValue n b).size := by
      rw [size_setValue, ← hn, List.length_cons]
      omega
    obtain ⟨hsize, htidy, hget⟩ := ih (n + 1) (hm.setValue n b) hrest
    refine ⟨hsize.trans (size_setValue ..), htidy, fun i => (hget i).trans ?_⟩
    rw [get_setValue]
    rcases Nat.lt_trichotomy i n with hi | rfl | hi
    · simp [Nat.not_le.mpr hi, Nat.not_le.mpr (Nat.lt_succ_of_lt hi), Nat.ne_of_gt hi]
    · simp [hlt]
    · have hsub : i - n = i - (n + 1) + 1 := by omega
      simp [hi.le, Nat.succ_le_of_lt hi, hsub]

theorem ofBools_written (bs : List Bool) : (ofBools bs).size = bs.length ∧ (ofBools bs).Tidy ∧
    ∀ i, (ofBools bs).get i = bs[i]?.getD false := by
  have h := foldl_setValue bs 0 (tidy_empty bs.length) (Nat.zero_add _)
  exact ⟨h.1, h.2.1, fun i => (h.2.2 i).trans (by simp)⟩

/-- A mask without bits above its size, for a set of points. -/
def Represents (m : Mask) (s : PointSet) : Prop := m.Tidy ∧ m.toSet = s

theorem represents_empty (n : Nat) : (empty n).Represents (.empty n) :=
  ⟨tidy_empty n, toSet_eq_iff.mpr ⟨rfl, fun i => by simp [PointSet.empty]⟩⟩

theorem represents_full (n : Nat) : (full n).Represents (.full n) :=
  ⟨tidy_full n, toSet_eq_iff.mpr ⟨rfl, fun i => by simp [PointSet.full]⟩⟩

theorem represents_fill (n : Nat) (value : Bool) : (fill n value).Represents (.fill n value) := by
  cases value with
  | true => exact represents_full n
  | false => exact represents_empty n

theorem represents_ofBools (bs : List Bool) : (ofBools bs).Represents (.ofBools bs) := by
  obtain ⟨hsize, htidy, hget⟩ := ofBools_written bs
  refine ⟨htidy, toSet_eq_iff.mpr ⟨hsize, fun i => (hget i).trans ?_⟩⟩
  by_cases hi : i < bs.length
  · simp [PointSet.ofBools, hi]
  · simp [PointSet.ofBools, hi]

variable {s : PointSet}

theorem Represents.size (h : m.Represents s) : m.size = s.size := congrArg PointSet.size h.2

theorem Represents.get (h : m.Represents s) (i : Nat) : m.get i = decide (i ∈ s.members) :=
  (toSet_eq_iff.mp h.2).2 i

theorem Represents.setAll (h : m.Represents s) (value : Bool) :
    (m.setAll value).Represents (.fill s.size value) := by
  refine ⟨tidy_mapWords _ _, toSet_eq_iff.mpr ⟨?_, fun i => ?_⟩⟩
  · cases value <;> exact h.size
  · rw [get_setAll, h.size]
    cases value <;> simp [PointSet.fill, PointSet.full, PointSet.empty]

theorem Represents.insert (h : m.Represents s) (i : Nat) : (m.insert i).Represents (s.insert i) := by
  refine ⟨h.1.insert i, toSet_eq_iff.mpr ⟨(size_insert ..).trans h.size, fun k => ?_⟩⟩
  rw [get_insert, h.get, h.size]
  have hk := s.lt_size k
  by_cases hik : i = k <;> grind [PointSet.insert]

theorem Represents.erase (h : m.Represents s) (i : Nat) : (m.erase i).Represents (s.erase i) := by
  refine ⟨h.1.erase i, toSet_eq_iff.mpr ⟨(size_erase ..).trans h.size, fun k => ?_⟩⟩
  rw [get_erase, h.get]
  simp [PointSet.erase, eq_comm, Bool.and_comm]

theorem Represents.setValue (h : m.Represents s) (i : Nat) (value : Bool) :
    (m.setValue i value).Represents (s.setValue i value) := by
  cases value with
  | true => exact h.insert i
  | false => exact h.erase i

theorem Represents.complement (h : m.Represents s) : m.complement.Represents s.complement := by
  refine ⟨tidy_mapWords _ _, toSet_eq_iff.mpr ⟨h.size, fun k => ?_⟩⟩
  rw [get_complement, h.get, h.size]
  simp [PointSet.complement]

theorem Represents.join (j : Joint) (h : m.Represents s) {t : PointSet} (ho : o.Represents t)
    (hsize : s.size = t.size) : (j.apply m o).Represents (s.join j t) := by
  have hjoins : Joins j m o :=
    joins_of_size_eq j h.1 ho.1 (h.size.trans (hsize.trans ho.size.symm))
  rw [Joins, h.2, ho.2] at hjoins
  exact describes_iff.mp hjoins

theorem Represents.apply {masks : Nat → Mask} {sets : Nat → PointSet}
    (h : ∀ k, (masks k).Represents (sets k)) (hm : m.Represents s) {op : SetOperation}
    (hop : op.Fits sets s) : (op.apply masks m).Represents (op.applySet sets s) := by
  cases op with
  | empty n => exact represents_empty n
  | full n => exact represents_full n
  | ofBools bs => exact represents_ofBools bs
  | reset n value => exact represents_fill n value
  | setAll value => exact hm.setAll value
  | insert i => exact hm.insert i
  | erase i => exact hm.erase i
  | setValue i value => exact hm.setValue i value
  | copy source => exact h source
  | complement => exact hm.complement
  | join how source => exact hm.join how (h source) hop

end Mask

namespace SetOperation

/-- The masks after operations on some of them, each given with the number of its mask. -/
def masksAfter (masks : Nat → Mask) : List (Nat × SetOperation) → Nat → Mask
  | [] => masks
  | (k, op) :: ops => masksAfter (Function.update masks k (op.apply masks (masks k))) ops

def setsAfter (sets : Nat → PointSet) : List (Nat × SetOperation) → Nat → PointSet
  | [] => sets
  | (k, op) :: ops => setsAfter (Function.update sets k (op.applySet sets (sets k))) ops

/-- Sets are joined with sets of their own size only. -/
def AllFit (sets : Nat → PointSet) : List (Nat × SetOperation) → Prop
  | [] => True
  | (k, op) :: ops => op.Fits sets (sets k) ∧
      AllFit (Function.update sets k (op.applySet sets (sets k))) ops

instance decidableAllFit (sets : Nat → PointSet) :
    (ops : List (Nat × SetOperation)) → Decidable (AllFit sets ops)
  | [] => .isTrue trivial
  | (k, op) :: ops =>
    have : Decidable (AllFit (Function.update sets k (op.applySet sets (sets k))) ops) :=
      decidableAllFit _ ops
    inferInstanceAs (Decidable (_ ∧ _))

variable {masks : Nat → Mask} {sets : Nat → PointSet}

/-- By induction on the operations. -/
theorem represents_after {ops : List (Nat × SetOperation)}
    (h : ∀ k, (masks k).Represents (sets k)) (hops : AllFit sets ops) (k : Nat) :
    (masksAfter masks ops k).Represents (setsAfter sets ops k) := by
  induction ops generalizing masks sets with
  | nil => exact h k
  | cons op ops ih =>
    obtain ⟨l, op⟩ := op
    refine ih (fun k => ?_) hops.2
    by_cases hk : k = l
    · subst hk
      simpa using (h k).apply h hops.1
    · simpa [hk] using h k

/-- Masks that start out empty and are joined with masks of their own size only are, after any
operations, the sets that the same operations give, in every way of asking; and two of them are the
same just if their sets are. -/
theorem describes_after (ops : List (Nat × SetOperation)) (h : AllFit (fun _ => .empty 0) ops) :
    let masks := masksAfter (fun _ => .empty 0) ops
    let sets := setsAfter (fun _ => .empty 0) ops
    ∀ k, (masks k).Describes (sets k) ∧
      ∀ l, masks k = masks l ↔ (sets k).size = (sets l).size ∧ (sets k).members = (sets l).members := by
  intro masks sets k
  have hrep := represents_after (fun _ => Mask.represents_empty 0) h
  have hdescribes : (masks k).Describes (sets k) := Mask.describes_iff.mpr (hrep k)
  refine ⟨hdescribes, fun l => ?_⟩
  rw [hdescribes.eq_iff _ (hrep l).1, (hrep l).size, (hrep l).2]

/-- Two sets of two whole words each, one without the point 70. -/
theorem describes_after_two_words :
    let ops : List (Nat × SetOperation) := [(0, .full 128), (1, .reset 128 true), (1, .erase 70),
      (0, .join .diff 1), (2, .copy 1), (2, .complement), (0, .insert 128)]
    let masks := masksAfter (fun _ => .empty 0) ops
    AllFit (fun _ => .empty 0) ops ∧ (masks 0).Describes (setsAfter (fun _ => .empty 0) ops 0) ∧
      (masks 0).ones = [70] ∧ masks 0 = masks 2 := by
  intro ops masks
  have hfit : AllFit (fun _ => .empty 0) ops := by decide
  obtain ⟨hdescribes, heq⟩ := describes_after ops hfit 0
  exact ⟨hfit, hdescribes, by decide +kernel, (heq 2).mpr ⟨rfl, by decide +kernel⟩⟩

end SetOperation

end ShadingMachine
