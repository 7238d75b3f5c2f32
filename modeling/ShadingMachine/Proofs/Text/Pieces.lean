import Mathlib.Data.List.TakeWhile
import ShadingMachine.Number.Numeral
import ShadingMachine.Proofs.Text.Separator
import ShadingMachine.Text.Quoted

/-! The pieces that a written name, number and string are scanned to. -/
namespace ShadingMachine.Text

/-- A letter or an underscore, and then letters, digits and underscores. -/
def isName (s : String) : Bool :=
  match s.toList with
  | [] => false
  | c :: cs => isNameStart c && cs.all isNamePart

variable {c : Char} {cs rest : List Char}

theorem toNat_of_isNameStart (h : isNameStart c = true) :
    65 ≤ c.toNat ∧ c.toNat ≤ 90 ∨ c.toNat = 95 ∨ 97 ≤ c.toNat ∧ c.toNat ≤ 122 := by
  unfold isNameStart Char.isAlpha Char.isUpper Char.isLower at h
  simp only [Bool.or_eq_true, beq_iff_eq, Bool.and_eq_true, decide_eq_true_eq,
    UInt32.le_iff_toNat_le] at h
  rcases h with rfl | h | h
  · exact .inr (.inl rfl)
  · exact .inl h
  · exact .inr (.inr h)

theorem toNat_of_isDigit (h : c.isDigit = true) : 48 ≤ c.toNat ∧ c.toNat ≤ 57 := by
  simp only [Char.isDigit, Bool.and_eq_true, decide_eq_true_eq, UInt32.le_iff_toNat_le] at h
  exact h

/-- A character that is neither blank nor a punctuation mark begins a number, a word or nothing. -/
theorem piece_eq (hlow : 43 ≤ c.toNat) (hhigh : c.toNat ≤ 126) (hcolon : c ≠ ':')
    (hleft : c ≠ '[') (hright : c ≠ ']') :
    piece c cs =
      if c.isDigit || startsNumber (c :: cs) then numberPiece (c :: cs)
      else if isNameStart c then
        (.token .word, c :: cs.takeWhile isNamePart, cs.dropWhile isNamePart)
      else (.fault (.unexpectedChar c), [c], cs) := by
  have hblank : isBlank c = false := by
    simp only [isBlank, Bool.or_eq_false_iff, Bool.and_eq_false_iff, decide_eq_false_iff_not,
      beq_eq_false_iff_ne]
    omega
  have hne {d : Char} (hd : d.toNat < 43) : c ≠ d := by
    rintro rfl
    omega
  have hcomment : c ≠ '#' := hne (by decide)
  have hquote : c ≠ '"' := hne (by decide)
  simp only [piece, hblank, hcomment, hquote, hcolon, hleft, hright, if_false, Bool.false_eq_true]

theorem piece_of_isNameStart (hc : isNameStart c = true) (cs : List Char) :
    piece c cs = (.token .word, c :: cs.takeWhile isNamePart, cs.dropWhile isNamePart) := by
  have hrange := toNat_of_isNameStart hc
  have hne {d : Char} (hd : d.toNat < 65 ∨ d.toNat = 91 ∨ d.toNat = 93) : c ≠ d := by
    rintro rfl
    omega
  have hdigit : c.isDigit = false := by
    cases hd : c.isDigit with
    | false => rfl
    | true =>
      have := toNat_of_isDigit hd
      omega
  have hstart : startsNumber (c :: cs) = false := by
    have h₁ : c ≠ '.' := hne (.inl (by decide))
    have h₂ : c ≠ '-' := hne (.inl (by decide))
    have h₃ : c ≠ '+' := hne (.inl (by decide))
    simp [startsNumber, h₁, h₂, h₃]
  rw [piece_eq (by omega) (by omega) (hne (.inl (by decide))) (hne (.inr (.inl (by decide))))
    (hne (.inr (.inr (by decide))))]
  simp [hdigit, hstart, hc]

theorem piece_name (hc : isNameStart c = true) (hcs : cs.all isNamePart = true) :
    piece c cs = (.token .word, c :: cs, []) := by
  have htake : cs.takeWhile isNamePart = cs :=
    List.takeWhile_eq_self_iff.mpr (List.all_eq_true.mp hcs)
  have hdrop : cs.dropWhile isNamePart = [] :=
    List.dropWhile_eq_nil_iff.mpr (List.all_eq_true.mp hcs)
  rw [piece_of_isNameStart hc, htake, hdrop]

/-! Numbers -/

theorem snd_signPart (cs : List Char) : (signPart cs).2 = (Number.splitSign cs).2 := by
  rcases cs with - | ⟨c, cs⟩
  · rfl
  · by_cases h₁ : c = '-'
    · subst h₁
      rfl
    · by_cases h₂ : c = '+'
      · subst h₂
        rfl
      · simp [signPart, Number.splitSign, h₁, h₂]

theorem exponentPart_of_exponentOf? (h : (Number.exponentOf? cs).isSome) :
    (exponentPart cs).2 = [] := by
  cases cs with
  | nil => rfl
  | cons e cs =>
    simp only [Number.exponentOf?, Option.isSome_ite, Bool.and_eq_true] at h
    obtain ⟨⟨he, hne⟩, hall⟩ := h
    have htake : (Number.splitSign cs).2.takeWhile Char.isDigit = (Number.splitSign cs).2 :=
      List.takeWhile_eq_self_iff.mpr (List.all_eq_true.mp hall)
    have hdrop : (Number.splitSign cs).2.dropWhile Char.isDigit = [] :=
      List.dropWhile_eq_nil_iff.mpr (List.all_eq_true.mp hall)
    simp only [exponentPart, snd_signPart, digitsPart, htake, hdrop, he, hne, Bool.and_self,
      if_true]

theorem exists_digit (h : (cs.takeWhile Char.isDigit).isEmpty = false) :
    ∃ d ds, d.isDigit = true ∧ cs = d :: ds := by
  cases cs with
  | nil => cases h
  | cons d ds =>
    cases hd : d.isDigit with
    | false => simp [hd] at h
    | true => exact ⟨d, ds, hd, rfl⟩

/-- A digit, or a point and a digit. -/
def StartsDigits (cs : List Char) : Prop :=
  ∃ d ds, d.isDigit = true ∧ (cs = d :: ds ∨ cs = '.' :: d :: ds)

/-- A number has digits behind its sign, and nothing behind its exponent. -/
theorem shape_of_numeral? (h : (Number.numeral? cs).isSome) :
    StartsDigits (signPart cs).2 ∧ (numberPart cs).2 = [] := by
  simp only [Number.numeral?, ← snd_signPart] at h
  split at h
  · rename_i rest hrest
    split at h
    · cases h
    · rename_i hdigits
      rw [Option.isSome_map] at h
      refine ⟨?_, ?_⟩
      · cases hwhole : ((signPart cs).2.takeWhile Char.isDigit).isEmpty with
        | false =>
          obtain ⟨d, ds, hd, heq⟩ := exists_digit hwhole
          exact ⟨d, ds, hd, .inl heq⟩
        | true =>
          rw [hwhole, Bool.true_and, Bool.not_eq_true] at hdigits
          obtain ⟨d, ds, hd, rfl⟩ := exists_digit hdigits
          have happend := List.takeWhile_append_dropWhile (p := Char.isDigit) (l := (signPart cs).2)
          rw [List.isEmpty_iff.mp hwhole, hrest, List.nil_append] at happend
          exact ⟨d, ds, hd, .inr happend.symm⟩
      · simp only [numberPart, digitsPart, hrest, fractionPart]
        exact exponentPart_of_exponentOf? h
  · rename_i hpoint
    split at h
    · cases h
    · rename_i hdigits
      rw [Option.isSome_map] at h
      refine ⟨?_, ?_⟩
      · rw [List.isEmpty_nil, Bool.and_true, Bool.not_eq_true] at hdigits
        obtain ⟨d, ds, hd, heq⟩ := exists_digit hdigits
        exact ⟨d, ds, hd, .inl heq⟩
      · have hfraction : fractionPart ((signPart cs).2.dropWhile Char.isDigit) =
            ([], (signPart cs).2.dropWhile Char.isDigit) := by
          unfold fractionPart
          split
          · rename_i rest heq
            exact absurd heq (hpoint rest)
          · rfl
        simp only [numberPart, digitsPart, hfraction]
        exact exponentPart_of_exponentOf? h

/-- So a number begins like one. -/
theorem StartsDigits.head (h : StartsDigits (signPart (c :: cs)).2) :
    (c.isDigit || startsNumber (c :: cs)) = true ∧ 43 ≤ c.toNat ∧ c.toNat ≤ 57 := by
  obtain ⟨d, ds, hd, heq⟩ := h
  have hpoint : d ≠ '.' := by
    rintro rfl
    cases hd
  by_cases hs : c = '-' ∨ c = '+'
  · have hrest : cs = d :: ds ∨ cs = '.' :: d :: ds := by
      rcases hs with rfl | rfl <;> exact heq
    rcases hs with rfl | rfl <;> rcases hrest with rfl | rfl <;> simp [startsNumber, hd, hpoint]
  · rw [not_or] at hs
    have hsign : (signPart (c :: cs)).2 = c :: cs := by simp [signPart, hs.1, hs.2]
    rw [hsign] at heq
    rcases heq with heq | heq
    · cases heq
      have hrange := toNat_of_isDigit hd
      exact ⟨by simp [hd], by omega, by omega⟩
    · cases heq
      simp [startsNumber, hd]

theorem piece_of_startsDigits (h : StartsDigits (signPart (c :: cs)).2) :
    piece c cs = numberPiece (c :: cs) := by
  obtain ⟨hstart, hlow, hhigh⟩ := h.head
  have hne {d : Char} (hd : 57 < d.toNat) : c ≠ d := by
    rintro rfl
    omega
  rw [piece_eq hlow (by omega) (hne (by decide)) (hne (by decide)) (hne (by decide)),
    if_pos hstart]

theorem piece_number (h : (Number.numeral? (c :: cs)).isSome) :
    piece c cs = (.token .number, c :: cs, []) := by
  obtain ⟨hdigits, hend⟩ := shape_of_numeral? h
  have hnumber : numberPart (c :: cs) = (c :: cs, []) := by
    have happend := numberPart_append (c :: cs)
    rw [hend, List.append_nil] at happend
    exact Prod.ext happend hend
  rw [piece_of_startsDigits hdigits]
  simp [numberPiece, hnumber]

/-! Strings -/

theorem stringTail_cons (hquote : c ≠ '"') (hslash : c ≠ '\\') (hline : c ≠ '\n') (cs : List Char) :
    stringTail (c :: cs) = ((stringTail cs).1, c :: (stringTail cs).2.1, (stringTail cs).2.2) := by
  cases cs with
  | nil => simp [stringTail]
  | cons d cs => simp [stringTail, hslash]

theorem stringTail_escape (cs rest : List Char) :
    stringTail (Quoted.escape cs ++ '"' :: rest) = (true, Quoted.escape cs ++ ['"'], rest) := by
  fun_induction Quoted.escape cs with
  | case1 => rfl
  | case2 cs ih | case3 cs ih | case4 cs ih | case5 cs ih | case6 cs ih =>
    simp [stringTail, ih]
  | case7 c cs hquote hslash hline _ _ ih =>
    rw [List.cons_append, stringTail_cons hquote hslash hline, ih]
    rfl

theorem piece_quote (cs rest : List Char) :
    piece '"' (Quoted.escape cs ++ '"' :: rest) =
      (.token .string, Quoted.quote cs, rest) := by
  have hblank : isBlank '"' = false := by decide
  simp [piece, hblank, stringTail_escape, Quoted.quote]

end ShadingMachine.Text
