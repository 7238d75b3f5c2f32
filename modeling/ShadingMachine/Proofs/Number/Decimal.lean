import Mathlib.Data.List.TakeWhile
import ShadingMachine.Number.Numeral

/-! Decimal numbers as they are written for natural numbers: they are read back. -/
namespace ShadingMachine.Number

theorem naturalOf_eq_ofDigitChars (cs : List Char) : naturalOf cs = Nat.ofDigitChars 10 cs 0 :=
  Nat.ofDigitChars_eq_foldl.symm

variable (n : Nat)

@[simp] theorem naturalOf_toDigits : naturalOf (Nat.toDigits 10 n) = n := by
  rw [naturalOf_eq_ofDigitChars, Nat.ofDigitChars_ten_toDigits]

theorem isDigit_of_mem {n : Nat} {c : Char} (h : c ∈ Nat.toDigits 10 n) : c.isDigit = true :=
  Nat.isDigit_of_mem_toDigits (by decide) (by decide) h

theorem all_isDigit : (Nat.toDigits 10 n).all Char.isDigit = true :=
  List.all_eq_true.mpr fun _ hc => isDigit_of_mem hc

theorem exists_toDigits : ∃ c cs, Nat.toDigits 10 n = c :: cs ∧ c.isDigit = true := by
  cases h : Nat.toDigits 10 n with
  | nil => exact absurd h Nat.toDigits_ne_nil
  | cons c cs => exact ⟨c, cs, rfl, isDigit_of_mem (h ▸ List.mem_cons_self)⟩

theorem natural?_toDigits : natural? (Nat.toDigits 10 n) = some n := by
  have hall := all_isDigit n
  have hvalue := naturalOf_toDigits n
  obtain ⟨c, cs, h, hc⟩ := exists_toDigits n
  rw [h] at hall hvalue ⊢
  have hplus : c ≠ '+' := by
    rintro rfl
    cases hc
  unfold natural?
  split
  · rename_i rest heq
    exact absurd (List.head_eq_of_cons_eq heq) hplus
  · simp [hall, hvalue]

theorem naturalBelow?_toString {n bound : Nat} (h : n < bound) :
    naturalBelow? bound (toString n).toList = some n := by
  rw [Nat.toString_eq_repr, Nat.toList_repr, naturalBelow?, natural?_toDigits]
  simp [h]

theorem splitSign_of_isDigit {c : Char} (h : c.isDigit = true) (cs : List Char) :
    splitSign (c :: cs) = (false, c :: cs) := by
  unfold splitSign
  split
  · rename_i heq
    cases List.head_eq_of_cons_eq heq
    cases h
  · rename_i heq
    cases List.head_eq_of_cons_eq heq
    cases h
  · rfl

theorem numeral?_toString : numeral? (toString n).toList = some ⟨false, n, 0⟩ := by
  rw [Nat.toString_eq_repr, Nat.toList_repr]
  have hsign : splitSign (Nat.toDigits 10 n) = (false, Nat.toDigits 10 n) := by
    obtain ⟨c, cs, h, hc⟩ := exists_toDigits n
    rw [h, splitSign_of_isDigit hc]
  have htake : (Nat.toDigits 10 n).takeWhile Char.isDigit = Nat.toDigits 10 n :=
    List.takeWhile_eq_self_iff.mpr fun _ hc => isDigit_of_mem hc
  have hdrop : (Nat.toDigits 10 n).dropWhile Char.isDigit = [] :=
    List.dropWhile_eq_nil_iff.mpr fun _ hc => isDigit_of_mem hc
  have hne : (Nat.toDigits 10 n).isEmpty = false := by simp [Nat.toDigits_ne_nil]
  simp [numeral?, hsign, htake, hdrop, hne, exponentOf?]

end ShadingMachine.Number
