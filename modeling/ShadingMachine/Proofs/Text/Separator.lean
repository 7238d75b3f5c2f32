import ShadingMachine.Text.Token

/-! Scanning up to a separator. A word, a number or a gap in front of a separator is scanned as if
the text ended there, so the pieces of a text on both sides of one may be looked at apart. -/
namespace ShadingMachine.Text

/-- A character that neither continues a word or a number nor makes one of what stands before
it. -/
structure IsSeparator (x : Char) : Prop where
  part : isNamePart x = false
  point : x ≠ '.'
  minus : x ≠ '-'
  plus : x ≠ '+'

instance (x : Char) : Decidable (IsSeparator x) :=
  decidable_of_iff (isNamePart x = false ∧ x ≠ '.' ∧ x ≠ '-' ∧ x ≠ '+')
    ⟨fun ⟨h₁, h₂, h₃, h₄⟩ => ⟨h₁, h₂, h₃, h₄⟩, fun ⟨h₁, h₂, h₃, h₄⟩ => ⟨h₁, h₂, h₃, h₄⟩⟩

namespace IsSeparator

variable {x : Char}

theorem isDigit (h : IsSeparator x) : x.isDigit = false := by
  have hp := h.part
  unfold isNamePart at hp
  exact (Bool.or_eq_false_iff.mp hp).2

theorem isNameStart (h : IsSeparator x) : isNameStart x = false := by
  have hp := h.part
  unfold isNamePart at hp
  exact (Bool.or_eq_false_iff.mp hp).1

theorem ne_exponent (h : IsSeparator x) : (x == 'e' || x == 'E') = false := by
  have hs := h.isNameStart
  by_cases he : x = 'e'
  · subst he
    cases hs
  · by_cases hE : x = 'E'
    · subst hE
      cases hs
    · simp [he, hE]

theorem takeWhile_append {p : Char → Bool} (hp : p x = false) (cs rest : List Char) :
    (cs ++ x :: rest).takeWhile p = cs.takeWhile p := by
  induction cs with
  | nil => simp [hp]
  | cons c cs ih => cases h : p c <;> simp [h, ih]

theorem dropWhile_append {p : Char → Bool} (hp : p x = false) (cs rest : List Char) :
    (cs ++ x :: rest).dropWhile p = cs.dropWhile p ++ x :: rest := by
  induction cs with
  | nil => simp [hp]
  | cons c cs ih => cases h : p c <;> simp [h, ih]

variable (h : IsSeparator x) (cs rest : List Char)
include h

theorem signPart_append :
    signPart (cs ++ x :: rest) = ((signPart cs).1, (signPart cs).2 ++ x :: rest) := by
  cases cs with
  | nil => simp [signPart, h.minus, h.plus]
  | cons c cs =>
    by_cases h₁ : c = '-'
    · subst h₁
      rfl
    · by_cases h₂ : c = '+'
      · subst h₂
        rfl
      · simp [signPart, h₁, h₂]

theorem digitsPart_append :
    digitsPart (cs ++ x :: rest) = ((digitsPart cs).1, (digitsPart cs).2 ++ x :: rest) := by
  simp only [digitsPart, takeWhile_append h.isDigit, dropWhile_append h.isDigit]

theorem fractionPart_append :
    fractionPart (cs ++ x :: rest) =
      ((fractionPart cs).1, (fractionPart cs).2 ++ x :: rest) := by
  cases cs with
  | nil => simp [fractionPart, h.point]
  | cons c cs =>
    by_cases hc : c = '.'
    · subst hc
      simp [fractionPart, h.digitsPart_append]
    · simp [fractionPart, hc]

theorem exponentPart_append :
    exponentPart (cs ++ x :: rest) =
      ((exponentPart cs).1, (exponentPart cs).2 ++ x :: rest) := by
  cases cs with
  | nil => simp [exponentPart, h.ne_exponent]
  | cons c cs =>
    simp only [List.cons_append, exponentPart, h.signPart_append, h.digitsPart_append]
    split <;> rfl

theorem numberPart_append :
    numberPart (cs ++ x :: rest) = ((numberPart cs).1, (numberPart cs).2 ++ x :: rest) := by
  simp only [numberPart, h.signPart_append, h.digitsPart_append, h.fractionPart_append,
    h.exponentPart_append]

theorem numberPiece_append :
    numberPiece (cs ++ x :: rest) =
      ((numberPiece cs).1, (numberPiece cs).2.1, (numberPiece cs).2.2 ++ x :: rest) := by
  simp only [numberPiece, h.numberPart_append, takeWhile_append h.part, dropWhile_append h.part]
  split <;> rfl

theorem startsNumber_append (c : Char) :
    startsNumber (c :: (cs ++ x :: rest)) = startsNumber (c :: cs) := by
  have hd := h.isDigit
  have hp := h.point
  by_cases hc : c = '.'
  · subst hc
    cases cs <;> simp [startsNumber, hd]
  · by_cases hs : c = '-' ∨ c = '+'
    · rcases cs with - | ⟨d, cs⟩
      · rcases hs with rfl | rfl <;> simp [startsNumber, hd, hp]
      · by_cases hpoint : d = '.'
        · subst hpoint
          rcases hs with rfl | rfl <;> cases cs <;> simp [startsNumber, hd]
        · rcases hs with rfl | rfl <;> simp [startsNumber, hpoint]
    · rw [not_or] at hs
      simp [startsNumber, hc, hs.1, hs.2]

/-- The first piece of a text that ends at a separator; strings and comments may reach over it. -/
theorem piece_append {c : Char} (hcomment : c ≠ '#') (hquote : c ≠ '"') :
    piece c (cs ++ x :: rest) =
      ((piece c cs).1, (piece c cs).2.1, (piece c cs).2.2 ++ x :: rest) := by
  have hnumber := h.numberPiece_append (c :: cs) rest
  rw [List.cons_append] at hnumber
  simp only [piece, hcomment, hquote, if_false, h.startsNumber_append, hnumber,
    takeWhile_append h.part, dropWhile_append h.part]
  repeat' split
  all_goals rfl

end IsSeparator

/-- A string that is closed is not read on. -/
theorem stringTail_of_closed (cs rest : List Char) (h : (stringTail cs).1 = true) :
    stringTail (cs ++ rest) = (true, (stringTail cs).2.1, (stringTail cs).2.2 ++ rest) := by
  fun_induction stringTail cs with
  | case1 | case3 => cases h
  | case2 => rfl
  | case4 c cs closed used rest' heq ih =>
    rw [heq] at ih
    rw [List.cons_append, List.cons_append, stringTail, ih h]
  | case5 c cs hquote hline hslash closed used rest' heq ih =>
    rw [heq] at ih
    -- A last lone backslash would leave the string open.
    have hne : c ≠ '\\' := by
      rintro rfl
      cases cs with
      | nil =>
        cases heq
        cases h
      | cons d ds => exact hslash d ds rfl rfl
    rw [List.cons_append, stringTail.eq_5 _ _ hquote hline fun _ _ hc _ => hne hc, ih h]

/-- The first piece of a text that ends at a separator, if nothing is wrong with it; a comment
may reach over it. -/
theorem IsSeparator.clean_piece_append {x c : Char} (h : IsSeparator x) (cs rest : List Char)
    (hcomment : c ≠ '#') (hclean : ∀ cause, (piece c cs).1 ≠ .fault cause) :
    piece c (cs ++ x :: rest) =
      ((piece c cs).1, (piece c cs).2.1, (piece c cs).2.2 ++ x :: rest) := by
  by_cases hquote : c = '"'
  · subst hquote
    have hblank : isBlank '"' = false := by decide
    have hpiece (cs : List Char) : piece '"' cs =
        (if (stringTail cs).1 then .token .string else .fault .unterminatedString,
          '"' :: (stringTail cs).2.1, (stringTail cs).2.2) := by
      simp [piece, hblank]
    have hclosed : (stringTail cs).1 = true := by
      have hne := hclean .unterminatedString
      rw [hpiece] at hne
      simpa using hne
    rw [hpiece, hpiece, stringTail_of_closed cs _ hclosed, hclosed]
  · exact h.piece_append cs rest hcomment hquote

end ShadingMachine.Text
