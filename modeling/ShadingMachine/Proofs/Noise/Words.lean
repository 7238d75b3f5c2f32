import Mathlib.Algebra.Group.Int.Defs
import ShadingMachine.Scene.Noise

/-! Words of 32 bits for the lattice, with sums that wrap around and a table to look up in. A run
records every addition and every look-up, and it is in range if none of them goes astray. -/
namespace ShadingMachine.Noise

/-- What is done on the lattice: two words are added, or an entry is found in the table. -/
inductive Step
  | addition (a b : Int32)
  | lookUp (index entry : Nat)

/-- The sum is a word without wrapping around; the index is one of the table's, and the entry is a
byte. -/
def Step.InRange : Step → Prop
  | addition a b => -2 ^ 31 ≤ a.toInt + b.toInt ∧ a.toInt + b.toInt < 2 ^ 31
  | lookUp index entry => index < 512 ∧ entry < 256

instance : DecidablePred Step.InRange
  | .addition .. | .lookUp .. => inferInstanceAs (Decidable (_ ∧ _))

/-- A value with the steps on the way to it. -/
structure Run (α : Type) where
  value : α
  steps : List Step

namespace Run

variable {α β : Type} {p : α → Prop} {q : β → Prop}

instance : Monad Run where
  pure a := ⟨a, []⟩
  bind r f := ⟨(f r.value).value, r.steps ++ (f r.value).steps⟩

/-- All steps are in range, and the value has the property. -/
def Yields (r : Run α) (p : α → Prop) : Prop := p r.value ∧ ∀ s ∈ r.steps, s.InRange

theorem yields_pure {a : α} (h : p a) : (pure a : Run α).Yields p := ⟨h, by nofun⟩

theorem Yields.bind {r : Run α} {f : α → Run β} (hr : r.Yields p)
    (hf : ∀ a, p a → (f a).Yields q) : (r >>= f).Yields q := by
  obtain ⟨hvalue, hsteps⟩ := hf r.value hr.1
  exact ⟨hvalue, List.forall_mem_append.mpr ⟨hr.2, hsteps⟩⟩

end Run

/-! Hashes are bytes -/

theorem size_permutation : permutation.size = 256 := by decide +kernel

theorem lt_of_mem_permutation : ∀ n ∈ permutation, n < 256 := by
  have hlist : ∀ n ∈ permutation.toList, n < 256 := by decide +kernel
  exact fun n hn => hlist n (Array.mem_toList_iff.mpr hn)

theorem hash_lt (v : Int) : hash v < 256 := by
  have hindex : (v % 256).toNat < permutation.size := by
    rw [size_permutation]
    omega
  rw [hash, Array.getD_eq_getD_getElem?, Array.getElem?_eq_getElem hindex]
  exact lt_of_mem_permutation _ (Array.getElem_mem hindex)

theorem mixCell_lt (h : Nat) (v : Int) : mixCell h v < 256 := hash_lt _

theorem foldl_mixCell_lt (cells : List Int) {h : Nat} (hh : h < 256) :
    cells.foldl mixCell h < 256 := by
  induction cells generalizing h with
  | nil => exact hh
  | cons v cells ih =>
    rw [List.foldl_cons]
    exact ih (mixCell_lt h v)

theorem cellHash_lt (cells : List Int) (channel : Nat) : cellHash cells channel < 65536 := by
  have hlow := foldl_mixCell_lt cells (hash_lt (channel * 71))
  have hhigh := hash_lt (cells.foldl mixCell (hash (channel * 71)) + 113)
  rw [cellHash]
  omega

namespace Words

theorem toInt_land_mask (v : Int32) : (v &&& 255).toInt = v.toInt % 256 := by
  have hbits : (v &&& 255).toBitVec.toNat = v.toBitVec.toNat % 256 := by
    rw [Int32.toBitVec_and, BitVec.toNat_and]
    exact Nat.and_two_pow_sub_one_eq_mod _ 8
  have hmask : (v &&& 255).toInt = (v &&& 255).toBitVec.toNat :=
    BitVec.toInt_eq_toNat_of_lt (by omega)
  have hv : v.toInt = (v.toBitVec.toNat : Int).bmod (2 ^ 32) := BitVec.toInt_eq_toNat_bmod _
  rw [hmask, hbits, hv, Int.bmod_def]
  split <;> omega

theorem toInt_shiftRight_eight (v : Int32) : (v >>> 8).toInt = v.toInt / 256 := by
  have hshift : (v >>> 8).toBitVec = v.toBitVec.sshiftRight 8 := Int32.toBitVec_shiftRight v 8
  rw [← Int32.toInt_toBitVec, hshift, BitVec.toInt_sshiftRight, Int32.toInt_toBitVec,
    Int.shiftRight_eq_div_pow]
  rfl

/-- The word is the number, which is a byte. -/
structure Holds (w : Int32) (n : Nat) : Prop where
  toInt : w.toInt = n
  lt : n < 256

namespace Holds

variable {w high low : Int32} {m n : Nat}

theorem toNat (h : Holds w n) : w.toNatClampNeg = n := by
  rw [Int32.toNatClampNeg, h.toInt, Int.toNat_natCast]

theorem toNat_toBitVec (h : Holds w n) : w.toBitVec.toNat = n := by
  have hn := h.lt
  have hw : (w.toBitVec.toNat : Int).bmod (2 ^ 32) = n :=
    (BitVec.toInt_eq_toNat_bmod _).symm.trans h.toInt
  rw [Int.bmod_def] at hw
  split at hw <;> omega

/-- One byte in front of another. -/
theorem join (hhigh : Holds high m) (hlow : Holds low n) :
    (high <<< 8 ||| low).toNatClampNeg = 256 * m + n := by
  have hm := hhigh.lt
  have hn := hlow.lt
  have hshift : (high <<< 8).toBitVec = high.toBitVec <<< 8 := Int32.toBitVec_shiftLeft high 8
  have hbits : (high <<< 8 ||| low).toBitVec.toNat = 256 * m + n := by
    rw [Int32.toBitVec_or, BitVec.toNat_or, hshift, BitVec.toNat_shiftLeft, hhigh.toNat_toBitVec,
      hlow.toNat_toBitVec, Nat.mod_eq_of_lt (by omega), ← Nat.shiftLeft_add_eq_or_of_lt hn,
      Nat.shiftLeft_eq, Nat.mul_comm]
  have hword : (high <<< 8 ||| low).toInt = (high <<< 8 ||| low).toBitVec.toNat :=
    BitVec.toInt_eq_toNat_of_lt (by omega)
  rw [Int32.toNatClampNeg, hword, hbits, Int.toNat_natCast]

end Holds

/-- The sum, wrapped around. -/
def plus (a b : Int32) : Run Int32 := ⟨a + b, [.addition a b]⟩

theorem yields_plus {a b : Int32} (hlow : -2 ^ 31 ≤ a.toInt + b.toInt)
    (hhigh : a.toInt + b.toInt < 2 ^ 31) :
    (plus a b).Yields (·.toInt = a.toInt + b.toInt) := by
  refine ⟨?_, List.forall_mem_singleton.mpr ⟨hlow, hhigh⟩⟩
  show (a + b).toInt = a.toInt + b.toInt
  rw [Int32.toInt_add, Int.bmod_eq_of_le] <;> omega

/-- The permutation twice over. -/
def table : Array Nat := permutation ++ permutation

theorem size_table : table.size = 512 := by
  rw [table, Array.size_append, size_permutation]

/-- The entry at the last eight bits. -/
def lookUp (v : Int32) : Run Int32 :=
  let index := (v &&& 255).toNatClampNeg
  let entry := table.getD index 0
  ⟨.ofNat entry, [.lookUp index entry]⟩

theorem table_getD {i : Nat} (h : i < 256) : table.getD i 0 = permutation.getD i 0 := by
  have hi : i < permutation.size := size_permutation ▸ h
  rw [table, Array.getD_eq_getD_getElem?, Array.getElem?_append_left hi,
    Array.getD_eq_getD_getElem?]

theorem yields_lookUp (v : Int32) : (lookUp v).Yields (Holds · (hash v.toInt)) := by
  have hindex : (v &&& 255).toNatClampNeg = (v.toInt % 256).toNat := by
    rw [Int32.toNatClampNeg, toInt_land_mask]
  have hlt : (v.toInt % 256).toNat < 256 := by omega
  have hentry : table.getD (v &&& 255).toNatClampNeg 0 = hash v.toInt := by
    rw [hindex, table_getD hlt, hash]
  have hhash := hash_lt v.toInt
  refine ⟨⟨?_, hhash⟩, List.forall_mem_singleton.mpr ⟨?_, ?_⟩⟩
  · show (Int32.ofNat (table.getD (v &&& 255).toNatClampNeg 0)).toInt = _
    rw [hentry, Int32.toInt_ofNat_of_lt (by omega)]
  · show (v &&& 255).toNatClampNeg < 512
    omega
  · show table.getD (v &&& 255).toNatClampNeg 0 < 256
    rw [hentry]
    exact hhash

end Words

end ShadingMachine.Noise
