/-! Sets of grid points as bits in words of 64, as many words as the size needs. The bits of the
last word at and above the size are normally clear; joining a longer set may leave some there.
Each operation is described by what it does to `get`. -/
namespace ShadingMachine

abbrev Word := BitVec 64

/-- How many words hold `n` bits. -/
def wordCount (n : Nat) : Nat := (n + 63) / 64

structure Mask where
  words : List Word
  size : Nat
  length_words : words.length = wordCount size
deriving DecidableEq

namespace Mask

/-- Whether a point is in the set. -/
def get (m : Mask) (i : Nat) : Bool :=
  i < m.size && (m.words.getD (i / 64) 0).getLsbD (i % 64)

/-- Clears the bits at and above `n` in the last word. -/
def trim (n : Nat) (words : List Word) : List Word :=
  if n % 64 = 0 then words
  else words.modify (words.length - 1) (· &&& BitVec.ofNat 64 ((1 <<< (n % 64)) - 1))

@[simp] theorem length_trim (n : Nat) (ws : List Word) : (trim n ws).length = ws.length := by
  unfold trim; split <;> simp

/-- The bits below `n` stay. -/
theorem getLsbD_trim {n i : Nat} {ws : List Word} (hw : ws.length = wordCount n) (hi : i < n) :
    ((trim n ws).getD (i / 64) 0).getLsbD (i % 64) = (ws.getD (i / 64) 0).getLsbD (i % 64) := by
  unfold trim
  split
  · rfl
  · rename_i hn
    simp only [List.getD_eq_getElem?_getD, List.getElem?_modify]
    split
    · rename_i hl
      have hlt : i % 64 < n % 64 := by unfold wordCount at hw; omega
      have hlen : i / 64 < ws.length := by unfold wordCount at hw; omega
      have hbit : (BitVec.ofNat 64 ((1 <<< (n % 64)) - 1)).getLsbD (i % 64) = true := by
        have h64 : i % 64 < 64 := Nat.mod_lt _ (by omega)
        simp [BitVec.getLsbD_ofNat, Nat.one_shiftLeft, Nat.testBit_two_pow_sub_one, hlt, h64]
      simp [List.getElem?_eq_getElem hlen, hbit]
    · simp

def empty (n : Nat) : Mask := ⟨List.replicate (wordCount n) 0, n, by simp⟩

instance : Inhabited Mask := ⟨empty 0⟩

def full (n : Nat) : Mask :=
  ⟨trim n (List.replicate (wordCount n) (BitVec.allOnes 64)), n, by simp⟩

/-- All points or none. -/
def fill (n : Nat) (value : Bool) : Mask := if value then full n else empty n

/-- The set written over with another one: its size and all of its words. -/
def copyFrom (_ o : Mask) : Mask := ⟨o.words, o.size, o.length_words⟩

@[simp] theorem size_empty (n : Nat) : (empty n).size = n := rfl
@[simp] theorem size_full (n : Nat) : (full n).size = n := rfl
@[simp] theorem size_fill (n : Nat) (b : Bool) : (fill n b).size = n := by cases b <;> rfl
@[simp] theorem copyFrom_eq (m o : Mask) : m.copyFrom o = o := rfl

@[simp] theorem get_empty (n i : Nat) : (empty n).get i = false := by
  simp only [get, empty, List.getD_eq_getElem?_getD, List.getElem?_replicate]
  split <;> simp
@[simp] theorem get_full (n i : Nat) : (full n).get i = decide (i < n) := by
  by_cases hi : i < n
  · have hk : i / 64 < wordCount n := by unfold wordCount; omega
    have h64 : i % 64 < 64 := Nat.mod_lt _ (by omega)
    simp only [get, full]
    rw [getLsbD_trim (by simp) hi]
    simp [hi, hk, h64, List.getD_eq_getElem?_getD, -BitVec.reduceAllOnes]
  · simp [get, full, hi]

theorem get_of_size_le {m : Mask} {i : Nat} (h : m.size ≤ i) : m.get i = false := by
  simp [get, Nat.not_lt.mpr h]
theorem lt_size_of_get {m : Mask} {i : Nat} (h : m.get i = true) : i < m.size := by
  simp [get] at h; exact h.1

/-- Changes the words, each by itself, keeping clear what is above the size. -/
def mapWords (f : Word → Word) (m : Mask) : Mask :=
  ⟨trim m.size (m.words.map f), m.size, by simp [m.length_words]⟩

def setAll (m : Mask) (value : Bool) : Mask :=
  m.mapWords fun _ => if value then BitVec.allOnes 64 else 0

def complement (m : Mask) : Mask := m.mapWords (~~~·)

@[simp] theorem size_mapWords (f : Word → Word) (m : Mask) : (m.mapWords f).size = m.size := rfl
@[simp] theorem size_setAll (m : Mask) (b : Bool) : (m.setAll b).size = m.size := rfl
@[simp] theorem size_complement (m : Mask) : m.complement.size = m.size := rfl

theorem get_mapWords (f : Word → Word) (m : Mask) {i : Nat} (hi : i < m.size) :
    (m.mapWords f).get i = (f (m.words.getD (i / 64) 0)).getLsbD (i % 64) := by
  have hk : i / 64 < m.words.length := by rw [m.length_words]; unfold wordCount; omega
  simp only [get, mapWords]
  rw [getLsbD_trim (by simp [m.length_words]) hi]
  simp [hi, hk, List.getD_eq_getElem?_getD]

@[simp] theorem get_setAll (m : Mask) (b : Bool) (i : Nat) :
    (m.setAll b).get i = (decide (i < m.size) && b) := by
  by_cases hi : i < m.size
  · have h64 : i % 64 < 64 := Nat.mod_lt _ (by omega)
    rw [setAll, get_mapWords _ _ hi]
    cases b <;> simp [hi, h64, -BitVec.reduceAllOnes]
  · rw [get_of_size_le (by simpa using hi)]; simp [hi]
@[simp] theorem get_complement (m : Mask) (i : Nat) :
    m.complement.get i = (decide (i < m.size) && !m.get i) := by
  by_cases hi : i < m.size
  · have h64 : i % 64 < 64 := Nat.mod_lt _ (by omega)
    rw [complement, get_mapWords _ _ hi]
    simp [get, hi, h64]
  · rw [get_of_size_le (by simpa using hi)]; simp [hi]

def insert (m : Mask) (i : Nat) : Mask :=
  if i < m.size then
    { m with
      words := m.words.modify (i / 64) (· ||| BitVec.twoPow 64 (i % 64))
      length_words := by simp [m.length_words] }
  else m

def erase (m : Mask) (i : Nat) : Mask :=
  if i < m.size then
    { m with
      words := m.words.modify (i / 64) (· &&& ~~~(BitVec.twoPow 64 (i % 64)))
      length_words := by simp [m.length_words] }
  else m

def setValue (m : Mask) (i : Nat) (value : Bool) : Mask :=
  if value then m.insert i else m.erase i

@[simp] theorem size_insert (m : Mask) (i : Nat) : (m.insert i).size = m.size := by
  unfold insert; split <;> rfl
@[simp] theorem size_erase (m : Mask) (i : Nat) : (m.erase i).size = m.size := by
  unfold erase; split <;> rfl
@[simp] theorem size_setValue (m : Mask) (i : Nat) (b : Bool) : (m.setValue i b).size = m.size := by
  cases b <;> simp [setValue]

/-- One word changed at the place of a point. -/
theorem getD_modify (ws : List Word) (f : Word → Word) {k : Nat} (hk : k < ws.length) (j : Nat) :
    (ws.modify k f).getD j 0 = if k = j then f (ws.getD j 0) else ws.getD j 0 := by
  simp only [List.getD_eq_getElem?_getD, List.getElem?_modify]
  split
  · rename_i h; subst h; simp [List.getElem?_eq_getElem hk]
  · simp

theorem get_insert (m : Mask) (i j : Nat) :
    (m.insert i).get j = (m.get j || decide (i = j ∧ i < m.size)) := by
  unfold insert
  split
  · rename_i hi
    have hk : i / 64 < m.words.length := by rw [m.length_words]; unfold wordCount; omega
    have h64 : j % 64 < 64 := Nat.mod_lt _ (by omega)
    have hij : i = j ↔ i / 64 = j / 64 ∧ i % 64 = j % 64 := by omega
    simp only [get, getD_modify _ _ hk]
    by_cases h : i / 64 = j / 64
    · by_cases h' : i % 64 = j % 64 <;> by_cases hj : j < m.size <;>
        simp [h, h', hi, hj, hij, h64] <;> omega
    · simp [h, hij]
  · rename_i hi; simp [hi]
theorem get_erase (m : Mask) (i j : Nat) :
    (m.erase i).get j = (m.get j && decide (i ≠ j)) := by
  unfold erase
  split
  · rename_i hi
    have hk : i / 64 < m.words.length := by rw [m.length_words]; unfold wordCount; omega
    have h64 : j % 64 < 64 := Nat.mod_lt _ (by omega)
    have hij : i = j ↔ i / 64 = j / 64 ∧ i % 64 = j % 64 := by omega
    simp only [get, getD_modify _ _ hk]
    by_cases h : i / 64 = j / 64
    · by_cases h' : i % 64 = j % 64
      · simp [h, h', hij, h64]
      · have h'' : j % 64 ≠ i % 64 := Ne.symm h'
        simp [h, h', h'', hij, h64]
    · simp [h, hij]
  · rename_i hi
    by_cases h : i = j
    · subst h; simp [get, hi]
    · simp [h]

def ofBools (bs : List Bool) : Mask :=
  bs.zipIdx.foldl (fun m p => m.setValue p.2 p.1) (empty bs.length)

/-- The place of the lowest bit that is set. -/
def lowest (w : Word) : Nat := (w &&& -w).toNat.log2

/-- Clearing the lowest bit makes a word smaller. -/
theorem toNat_and_sub_one_lt {w : Word} (h : w ≠ 0) : (w &&& (w - 1)).toNat < w.toNat := by
  have hpos : 0 < w.toNat := Nat.pos_of_ne_zero fun h0 => h (BitVec.eq_of_toNat_eq h0)
  have hle : (w &&& (w - 1)).toNat ≤ (w - 1).toNat := by
    rw [BitVec.toNat_and]
    exact Nat.and_le_right
  have hsub : (w - 1).toNat = w.toNat - 1 := BitVec.toNat_sub_of_le (BitVec.le_def.mpr hpos)
  omega

/-- The places of the bits that are set: the lowest is taken and cleared until none is left. -/
def wordOnes (w : Word) : List Nat :=
  if h : w = 0 then [] else lowest w :: wordOnes (w &&& (w - 1))
termination_by w.toNat
decreasing_by exact toNat_and_sub_one_lt h

/-- The members, word by word. -/
def ones (m : Mask) : List Nat :=
  m.words.zipIdx.flatMap fun p => (wordOnes p.1).map (64 * p.2 + ·)

def count (m : Mask) : Nat := m.words.foldl (fun n w => n + w.cpop.toNat) 0

def hasNone (m : Mask) : Bool := m.words.all (· == 0)

def hasAll (m : Mask) : Bool := m.count == m.size

/-- Word by word; words of the first list beyond the second stay as they are. -/
def zipFront (f : Word → Word → Word) : List Word → List Word → List Word
  | a :: as, b :: bs => f a b :: zipFront f as bs
  | as, [] => as
  | [], _ => []

@[simp] theorem length_zipFront (f : Word → Word → Word) (as bs : List Word) :
    (zipFront f as bs).length = as.length := by
  fun_induction zipFront f as bs <;> simp_all

/-- Joins two sets word by word. -/
def zipWords (f : Word → Word → Word) (m o : Mask) : Mask :=
  ⟨zipFront f m.words o.words, m.size, by simp [m.length_words]⟩

theorem getD_zipFront (f : Word → Word → Word) (as bs : List Word) {k : Nat}
    (ha : k < as.length) (hb : k < bs.length) :
    (zipFront f as bs).getD k 0 = f (as.getD k 0) (bs.getD k 0) := by
  fun_induction zipFront f as bs generalizing k with
  | case1 a as b bs ih =>
    cases k with
    | zero => rfl
    | succ k => simpa using ih (by simpa using ha) (by simpa using hb)
  | case2 | case3 => simp at ha hb

theorem get_zipWords (f : Word → Word → Word) {m o : Mask} (h : m.size = o.size) {i : Nat}
    (hi : i < m.size) :
    (m.zipWords f o).get i =
      (f (m.words.getD (i / 64) 0) (o.words.getD (i / 64) 0)).getLsbD (i % 64) := by
  have hm : i / 64 < m.words.length := by rw [m.length_words]; unfold wordCount; omega
  have ho : i / 64 < o.words.length := by rw [o.length_words]; unfold wordCount; omega
  simp only [get, zipWords, getD_zipFront f _ _ hm ho, hi, decide_true, Bool.true_and]

def inter (m o : Mask) : Mask := m.zipWords (· &&& ·) o

def union (m o : Mask) : Mask := m.zipWords (· ||| ·) o

def diff (m o : Mask) : Mask := m.zipWords (fun a b => a &&& ~~~b) o

@[simp] theorem size_inter (m o : Mask) : (m.inter o).size = m.size := rfl
@[simp] theorem size_union (m o : Mask) : (m.union o).size = m.size := rfl
@[simp] theorem size_diff (m o : Mask) : (m.diff o).size = m.size := rfl

theorem get_inter {m o : Mask} (h : m.size = o.size) (i : Nat) :
    (m.inter o).get i = (m.get i && o.get i) := by
  by_cases hi : i < m.size
  · rw [inter, get_zipWords _ h hi]; simp [get, hi, h ▸ hi]
  · rw [get_of_size_le (by simpa using hi)]; simp [get, hi]
theorem get_union {m o : Mask} (h : m.size = o.size) (i : Nat) :
    (m.union o).get i = (m.get i || o.get i) := by
  by_cases hi : i < m.size
  · rw [union, get_zipWords _ h hi]; simp [get, hi, h ▸ hi]
  · rw [get_of_size_le (by simpa using hi)]; simp [get, hi, ← h]
theorem get_diff {m o : Mask} (h : m.size = o.size) (i : Nat) :
    (m.diff o).get i = (m.get i && !o.get i) := by
  by_cases hi : i < m.size
  · have h64 : i % 64 < 64 := Nat.mod_lt _ (by omega)
    rw [diff, get_zipWords _ h hi]; simp [get, hi, h ▸ hi, h64]
  · rw [get_of_size_le (by simpa using hi)]; simp [get, hi]

end Mask
end ShadingMachine
