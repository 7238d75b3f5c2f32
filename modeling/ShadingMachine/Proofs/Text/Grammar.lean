import ShadingMachine.Proofs.Text.Pieces

/-! The grammar of the tokens, and what the pieces of a text are by it. A gap is a blank or a
comment, a token is spelled as its kind says, and a word or a number ends where the characters of a
name end. -/
namespace ShadingMachine.Text

inductive IsSign : List Char → Prop
  | none : IsSign []
  | minus : IsSign ['-']
  | plus : IsSign ['+']

/-- Digits, with a point or without; there is at least one. -/
inductive IsDecimal : List Char → Prop
  | whole {ds : List Char} : ds ≠ [] → ds.all Char.isDigit → IsDecimal ds
  | point {ds es : List Char} : ds ++ es ≠ [] → ds.all Char.isDigit → es.all Char.isDigit →
    IsDecimal (ds ++ '.' :: es)

inductive IsExponent : List Char → Prop
  | none : IsExponent []
  | some {e : Char} {sign ds : List Char} : e = 'e' ∨ e = 'E' → IsSign sign → ds ≠ [] →
    ds.all Char.isDigit → IsExponent (e :: sign ++ ds)

inductive IsNumber : List Char → Prop
  | mk {sign decimal exponent : List Char} : IsSign sign → IsDecimal decimal → IsExponent exponent →
    IsNumber (sign ++ decimal ++ exponent)

/-- The inside of a string: plain characters, and any character behind a backslash. -/
inductive IsQuotable : List Char → Prop
  | nil : IsQuotable []
  | plain {c : Char} {cs : List Char} : c ≠ '"' → c ≠ '\\' → c ≠ '\n' → IsQuotable cs →
    IsQuotable (c :: cs)
  | escaped {c : Char} {cs : List Char} : IsQuotable cs → IsQuotable ('\\' :: c :: cs)

/-- How the tokens of a kind are spelled. -/
inductive TokenKind.Spells : TokenKind → List Char → Prop
  | word {c : Char} {cs : List Char} : isNameStart c → cs.all isNamePart → Spells .word (c :: cs)
  | number {cs : List Char} : IsNumber cs → Spells .number cs
  | string {cs : List Char} : IsQuotable cs → Spells .string ('"' :: (cs ++ ['"']))
  | colon : Spells .colon [':']
  | leftBracket : Spells .leftBracket ['[']
  | rightBracket : Spells .rightBracket [']']
  | endOfInput : Spells .endOfInput []

/-- A line ends here. -/
def EndsLine (cs : List Char) : Prop := ∀ c ∈ cs.head?, c = '\n'

/-- A name would end here. -/
def EndsName (cs : List Char) : Prop := ∀ c ∈ cs.head?, isNamePart c = false

/-- What stands between tokens: a blank, or a comment to the end of its line. -/
inductive IsGap (rest : List Char) : List Char → Prop
  | blank {c : Char} : isBlank c → IsGap rest [c]
  | comment {line : List Char} : '\n' ∉ line → EndsLine rest → IsGap rest ('#' :: line)

/-- What a piece is that stands before the rest of a text. -/
inductive IsPiece (rest : List Char) : Piece → List Char → Prop
  | gap {used : List Char} : IsGap rest used → IsPiece rest .gap used
  | token {kind : TokenKind} {used : List Char} : kind.Spells used → used ≠ [] →
    (kind = .word ∨ kind = .number → EndsName rest) → IsPiece rest (.token kind) used
  | fault {cause : Cause} {used : List Char} : used ≠ [] → IsPiece rest (.fault cause) used

variable {c : Char} {cs : List Char}

theorem endsLine_dropWhile (cs : List Char) : EndsLine (cs.dropWhile (· != '\n')) := by
  intro c hc
  have h := List.head?_dropWhile_not (· != '\n') cs
  rw [Option.mem_def.mp hc] at h
  simpa using h

theorem endsName_dropWhile (cs : List Char) : EndsName (cs.dropWhile isNamePart) := by
  intro c hc
  have h := List.head?_dropWhile_not isNamePart cs
  rw [Option.mem_def.mp hc] at h
  simpa using h

/-! Numbers -/

theorem isSign_signPart (cs : List Char) : IsSign (signPart cs).1 := by
  unfold signPart
  split
  · exact .minus
  · exact .plus
  · exact .none

theorem all_takeWhile_isDigit (cs : List Char) : (cs.takeWhile Char.isDigit).all Char.isDigit :=
  List.all_eq_true.mpr fun _ hc => List.mem_takeWhile_imp hc

theorem isExponent_exponentPart (cs : List Char) : IsExponent (exponentPart cs).1 := by
  unfold exponentPart
  split
  · exact .none
  · dsimp only
    split
    · rename_i e cs hexponent
      rw [Bool.and_eq_true, Bool.or_eq_true, beq_iff_eq, beq_iff_eq, Bool.not_eq_true',
        List.isEmpty_eq_false_iff] at hexponent
      exact .some hexponent.1 (isSign_signPart cs) hexponent.2 (all_takeWhile_isDigit _)
    · exact .none

theorem isDecimal_of_startsDigits (h : StartsDigits cs) :
    IsDecimal ((digitsPart cs).1 ++ (fractionPart (digitsPart cs).2).1) := by
  obtain ⟨d, ds, hd, rfl | rfl⟩ := h
  · have hne : (digitsPart (d :: ds)).1 ≠ [] := by simp [digitsPart, hd]
    unfold fractionPart
    split
    · exact .point (List.append_ne_nil_of_left_ne_nil hne _) (all_takeWhile_isDigit _)
        (all_takeWhile_isDigit _)
    · rw [List.append_nil]
      exact .whole hne (all_takeWhile_isDigit _)
  · have hne : (digitsPart (d :: ds)).1 ≠ [] := by simp [digitsPart, hd]
    exact .point (List.append_ne_nil_of_right_ne_nil [] hne) rfl (all_takeWhile_isDigit _)

/-- What begins like a number has digits behind its sign. -/
theorem startsDigits_of_startsNumber (h : (c.isDigit || startsNumber (c :: cs)) = true) :
    StartsDigits (signPart (c :: cs)).2 := by
  by_cases hs : c = '-' ∨ c = '+'
  · have hdigits : startsNumber (c :: cs) = true := by rcases hs with rfl | rfl <;> exact h
    have hsign : (signPart (c :: cs)).2 = cs := by rcases hs with rfl | rfl <;> rfl
    rw [hsign]
    rcases cs with - | ⟨d, ds⟩
    · rcases hs with rfl | rfl <;> cases hdigits
    · by_cases hpoint : d = '.'
      · subst hpoint
        rcases ds with - | ⟨d, ds⟩
        · rcases hs with rfl | rfl <;> cases hdigits
        · exact ⟨d, ds, by rcases hs with rfl | rfl <;> exact hdigits, .inr rfl⟩
      · refine ⟨d, ds, ?_, .inl rfl⟩
        rcases hs with rfl | rfl <;> simpa [startsNumber, hpoint] using hdigits
  · rw [not_or] at hs
    have hsign : (signPart (c :: cs)).2 = c :: cs := by simp [signPart, hs.1, hs.2]
    rw [hsign]
    by_cases hd : c.isDigit
    · exact ⟨c, cs, hd, .inl rfl⟩
    · rw [Bool.not_eq_true] at hd
      rw [hd, Bool.false_or] at h
      by_cases hpoint : c = '.'
      · subst hpoint
        rcases cs with - | ⟨d, ds⟩
        · cases h
        · exact ⟨d, ds, h, .inr rfl⟩
      · simp [startsNumber, hs.1, hs.2, hpoint] at h

theorem isNumber_numberPart (h : (c.isDigit || startsNumber (c :: cs)) = true) :
    IsNumber (numberPart (c :: cs)).1 := by
  have hdecimal := isDecimal_of_startsDigits (startsDigits_of_startsNumber h)
  have hnumber := IsNumber.mk (isSign_signPart (c :: cs)) hdecimal (isExponent_exponentPart
    (fractionPart (digitsPart (signPart (c :: cs)).2).2).2)
  rw [← List.append_assoc] at hnumber
  exact hnumber

/-! Strings -/

/-- A string that is closed. -/
theorem exists_quotable_of_closed (h : (stringTail cs).1 = true) :
    ∃ body, IsQuotable body ∧ (stringTail cs).2.1 = body ++ ['"'] := by
  fun_induction stringTail cs with
  | case1 | case3 => cases h
  | case2 => exact ⟨[], .nil, rfl⟩
  | case4 c cs closed used rest heq ih =>
    rw [heq] at ih
    obtain ⟨body, hbody, hused⟩ := ih h
    exact ⟨'\\' :: c :: body, .escaped hbody, congrArg (fun cs => '\\' :: c :: cs) hused⟩
  | case5 c cs hquote hline hslash closed used rest heq ih =>
    rw [heq] at ih
    obtain ⟨body, hbody, hused⟩ := ih h
    -- A last lone backslash would leave the string open.
    have hne : c ≠ '\\' := by
      rintro rfl
      cases cs with
      | nil =>
        cases heq
        cases h
      | cons d ds => exact hslash d ds rfl rfl
    exact ⟨c :: body, .plain hquote hne hline hbody, congrArg (c :: ·) hused⟩

/-! Pieces -/

theorem isPiece_numberPiece (h : (c.isDigit || startsNumber (c :: cs)) = true) :
    IsPiece (numberPiece (c :: cs)).2.2 (numberPiece (c :: cs)).1 (numberPiece (c :: cs)).2.1 := by
  have hne := numberPart_ne_nil c cs h
  unfold numberPiece
  dsimp only
  split
  · rename_i hglued
    refine .token (.number (isNumber_numberPart h)) hne fun _ d hd => ?_
    obtain ⟨ds, hds⟩ := List.head?_eq_some_iff.mp (Option.mem_def.mp hd)
    rw [hds] at hglued
    cases hpart : isNamePart d with
    | false => rfl
    | true => simp [hpart] at hglued
  · exact .fault (List.append_ne_nil_of_left_ne_nil hne _)

theorem isPiece_piece (c : Char) (cs : List Char) :
    IsPiece (piece c cs).2.2 (piece c cs).1 (piece c cs).2.1 := by
  unfold piece
  split
  · exact .gap (.blank ‹_›)
  split
  · rename_i hc
    subst hc
    refine .gap (.comment (fun hmem => ?_) (endsLine_dropWhile cs))
    simpa using List.mem_takeWhile_imp hmem
  have hmark {kind : TokenKind} {rest : List Char} (h : kind.Spells [c])
      (hkind : ¬(kind = .word ∨ kind = .number)) : IsPiece rest (.token kind) [c] :=
    .token h (List.cons_ne_nil c []) fun hmaximal => absurd hmaximal hkind
  split
  · exact hmark (‹c = ':'› ▸ .colon) (by decide)
  split
  · exact hmark (‹c = '['› ▸ .leftBracket) (by decide)
  split
  · exact hmark (‹c = ']'› ▸ .rightBracket) (by decide)
  split
  · rename_i hc
    subst hc
    dsimp only
    split
    · rename_i hclosed
      obtain ⟨body, hbody, hused⟩ := exists_quotable_of_closed hclosed
      rw [hused]
      exact .token (.string hbody) (List.cons_ne_nil _ _) fun h => absurd h (by decide)
    · exact .fault (List.cons_ne_nil _ _)
  split
  · exact isPiece_numberPiece ‹_›
  split
  · refine .token (.word ‹_› ?_) (List.cons_ne_nil _ _) fun _ => endsName_dropWhile cs
    exact List.all_eq_true.mpr fun _ hd => List.mem_takeWhile_imp hd
  · exact .fault (List.cons_ne_nil _ _)

end ShadingMachine.Text
