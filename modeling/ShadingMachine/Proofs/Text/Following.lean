import ShadingMachine.Proofs.Text.LineByLine

/-! What follows a token. The token that a text begins with ends where the next character does not
go on with it: it is the same token before any other text that begins with that character, or with
a separator, or that is empty. -/
namespace ShadingMachine.Text

/-- What may stand in the place of the rest of a text behind a token. -/
def Follows (rest rest' : List Char) : Prop :=
  ∀ x ∈ rest'.head?, rest.head? = some x ∨ IsSeparator x

variable {c : Char} {cs rest rest' : List Char} {p : Char → Bool}

theorem Follows.refl (rest : List Char) : Follows rest rest := fun _ h => .inl h

theorem Follows.append (h : Follows rest rest') (cs : List Char) :
    Follows (cs ++ rest) (cs ++ rest') := by
  cases cs with
  | nil => exact h
  | cons c cs => exact fun x hx => .inl hx

/-- Nothing more is taken of the new rest. -/
theorem Follows.forall_head (h : Follows rest rest') (hp : ∀ x, IsSeparator x → p x = false)
    (hrest : ∀ x ∈ rest.head?, p x = false) : ∀ x ∈ rest'.head?, p x = false := by
  intro x hx
  rcases h x hx with hsame | hseparator
  · exact hrest x hsame
  · exact hp x hseparator

theorem takeWhile_append_of_head (hcs : ∀ c ∈ cs, p c = true)
    (hrest : ∀ x ∈ rest.head?, p x = false) :
    (cs ++ rest).takeWhile p = cs ∧ (cs ++ rest).dropWhile p = rest := by
  rw [List.takeWhile_append_of_pos hcs, List.dropWhile_append_of_pos hcs]
  cases rest with
  | nil => simp
  | cons x rest => simp [hrest x rfl]

theorem head_dropWhile (p : Char → Bool) (cs : List Char) :
    ∀ x ∈ (cs.dropWhile p).head?, p x = false := by
  intro x hx
  have h := List.head?_dropWhile_not p cs
  rw [Option.mem_def.mp hx] at h
  exact h

theorem Follows.takeWhile (hp : ∀ x, IsSeparator x → p x = false)
    (h : Follows (cs.dropWhile p) rest') :
    (cs.takeWhile p ++ rest').takeWhile p = cs.takeWhile p ∧
      (cs.takeWhile p ++ rest').dropWhile p = rest' :=
  takeWhile_append_of_head (fun _ hc => List.mem_takeWhile_imp hc)
    (h.forall_head hp (head_dropWhile p cs))

/-! Numbers -/

theorem signPart_of_follows (h : Follows (signPart cs).2 rest') :
    signPart ((signPart cs).1 ++ rest') = ((signPart cs).1, rest') := by
  unfold signPart at h ⊢
  split at h
  · rfl
  · rfl
  · rename_i hminus hplus
    cases rest' with
    | nil => rfl
    | cons x rest' =>
      have hne : x ≠ '-' ∧ x ≠ '+' := by
        rcases h x rfl with hsame | hx
        · obtain ⟨tail, rfl⟩ := List.head?_eq_some_iff.mp hsame
          exact ⟨fun hx => hminus tail (by rw [hx]), fun hx => hplus tail (by rw [hx])⟩
        · exact ⟨hx.minus, hx.plus⟩
      simp [hne]

theorem digitsPart_of_follows (h : Follows (digitsPart cs).2 rest') :
    digitsPart ((digitsPart cs).1 ++ rest') = ((digitsPart cs).1, rest') := by
  obtain ⟨htake, hdrop⟩ := Follows.takeWhile (fun x hx => hx.isDigit) h
  simp only [digitsPart, htake, hdrop]

theorem fractionPart_of_follows (h : Follows (fractionPart cs).2 rest') :
    fractionPart ((fractionPart cs).1 ++ rest') = ((fractionPart cs).1, rest') := by
  unfold fractionPart at h ⊢
  split at h
  · have hdigits := digitsPart_of_follows h
    simp [hdigits]
  · rename_i hpoint
    cases rest' with
    | nil => rfl
    | cons x rest' =>
      have hne : x ≠ '.' := by
        rcases h x rfl with hsame | hx
        · obtain ⟨tail, rfl⟩ := List.head?_eq_some_iff.mp hsame
          exact fun hx => hpoint tail (by rw [hx])
        · exact hx.point
      simp [hne]

/-- What begins with no letter has no exponent. -/
theorem exponentPart_of_head (h : ∀ x ∈ cs.head?, (x == 'e' || x == 'E') = false) :
    exponentPart cs = ([], cs) := by
  cases cs with
  | nil => rfl
  | cons x cs => simp [exponentPart, h x rfl]

theorem not_exponent_of_isNamePart {x : Char} (h : isNamePart x = false) :
    (x == 'e' || x == 'E') = false := by
  by_cases hlow : x = 'e'
  · subst hlow
    cases h
  · by_cases hhigh : x = 'E'
    · subst hhigh
      cases h
    · simp [hlow, hhigh]

/-- Behind a number that is not glued to a name there is no exponent either. -/
theorem exponentPart_of_follows (h : Follows (exponentPart cs).2 rest')
    (hname : EndsName (exponentPart cs).2) :
    exponentPart ((exponentPart cs).1 ++ rest') = ((exponentPart cs).1, rest') := by
  have hnone : exponentPart rest' = ([], rest') :=
    exponentPart_of_head (h.forall_head (fun x hx => hx.ne_exponent)
      fun x hx => not_exponent_of_isNamePart (hname x hx))
  cases cs with
  | nil => exact hnone
  | cons e cs =>
    by_cases hexponent :
        ((e == 'e' || e == 'E') && !(digitsPart (signPart cs).2).1.isEmpty) = true
    · simp only [exponentPart, if_pos hexponent] at h ⊢
      have hdigits := digitsPart_of_follows h
      have hsign : Follows (signPart cs).2 ((digitsPart (signPart cs).2).1 ++ rest') := by
        have hrest := h.append (digitsPart (signPart cs).2).1
        rwa [digitsPart_append] at hrest
      simp only [List.cons_append, List.append_assoc, signPart_of_follows hsign, hdigits,
        if_pos hexponent]
    · simp only [exponentPart, if_neg hexponent, List.nil_append]
      exact hnone

/-- The rest of a number behind its sign, before the new rest. -/
theorem signPart_numberPart (h : Follows (numberPart cs).2 rest') :
    signPart ((numberPart cs).1 ++ rest') = ((signPart cs).1,
      (digitsPart (signPart cs).2).1 ++ ((fractionPart (digitsPart (signPart cs).2).2).1 ++
        ((exponentPart (fractionPart (digitsPart (signPart cs).2).2).2).1 ++ rest'))) := by
  simp only [numberPart, List.append_assoc] at h ⊢
  refine signPart_of_follows ?_
  have hrest := ((h.append (exponentPart (fractionPart (digitsPart (signPart cs).2).2).2).1).append
    (fractionPart (digitsPart (signPart cs).2).2).1).append (digitsPart (signPart cs).2).1
  rwa [exponentPart_append, fractionPart_append, digitsPart_append] at hrest

theorem numberPart_of_follows (h : Follows (numberPart cs).2 rest')
    (hname : EndsName (numberPart cs).2) :
    numberPart ((numberPart cs).1 ++ rest') = ((numberPart cs).1, rest') := by
  have hsign := signPart_numberPart h
  have hexponent := exponentPart_of_follows h hname
  have hfraction := h.append (exponentPart (fractionPart (digitsPart (signPart cs).2).2).2).1
  simp only [numberPart] at hfraction
  rw [exponentPart_append] at hfraction
  have hwhole := hfraction.append (fractionPart (digitsPart (signPart cs).2).2).1
  rw [fractionPart_append] at hwhole
  rw [numberPart, hsign]
  simp only [digitsPart_of_follows hwhole, fractionPart_of_follows hfraction, hexponent]
  rfl

theorem IsDecimal.startsDigits (h : IsDecimal cs) (rest : List Char) :
    StartsDigits (cs ++ rest) := by
  cases h with
  | whole hne hall =>
    obtain ⟨d, ds, rfl⟩ := List.exists_cons_of_ne_nil hne
    exact ⟨d, ds ++ rest, List.all_eq_true.mp hall d List.mem_cons_self, .inl rfl⟩
  | @point ds es hne hall hall' =>
    cases ds with
    | cons d ds =>
      exact ⟨d, _, List.all_eq_true.mp hall d List.mem_cons_self, .inl rfl⟩
    | nil =>
      obtain ⟨e, es, rfl⟩ := List.exists_cons_of_ne_nil hne
      exact ⟨e, es ++ rest, List.all_eq_true.mp hall' e List.mem_cons_self, .inr rfl⟩

/-! Tokens -/

/-- A number is the same before the new rest. -/
theorem numberPiece_of_follows {kind : TokenKind} {used : List Char}
    (hstart : (c.isDigit || startsNumber (c :: cs)) = true)
    (hpiece : numberPiece (c :: cs) = (.token kind, c :: used, rest)) (h : Follows rest rest') :
    piece c (used ++ rest') = (.token kind, c :: used, rest') := by
  have hend := isPiece_numberPiece hstart
  rw [hpiece] at hend
  unfold numberPiece at hpiece
  dsimp only at hpiece
  split at hpiece
  · rename_i hglued
    simp only [Prod.mk.injEq, Piece.token.injEq] at hpiece
    obtain ⟨hkind, hused, hrest⟩ := hpiece
    subst hkind hrest
    have hname : EndsName (numberPart (c :: cs)).2 := by
      cases hend with
      | token _ _ hmaximal => exact hmaximal (.inr rfl)
    have hsign := signPart_numberPart h
    have hnumber := numberPart_of_follows h hname
    rw [hused, List.cons_append] at hsign hnumber
    have hdigits : StartsDigits (signPart (c :: (used ++ rest'))).2 := by
      rw [hsign, ← List.append_assoc]
      exact (isDecimal_of_startsDigits (startsDigits_of_startsNumber hstart)).startsDigits _
    have hnone : rest'.takeWhile isNamePart = [] :=
      (takeWhile_append_of_head (List.forall_mem_nil _)
        (h.forall_head (fun x hx => hx.part) hname)).1
    rw [piece_of_startsDigits hdigits]
    simp [numberPiece, hnumber, hnone]
  · cases hpiece

/-- A token is the same before the new rest. -/
theorem piece_of_follows {kind : TokenKind} {used : List Char}
    (hpiece : piece c cs = (.token kind, c :: used, rest)) (h : Follows rest rest') :
    piece c (used ++ rest') = (.token kind, c :: used, rest') := by
  have hend := isPiece_piece c cs
  rw [hpiece] at hend
  unfold piece at hpiece
  split at hpiece
  · cases hpiece
  split at hpiece
  · cases hpiece
  split at hpiece
  · cases hpiece
    rename_i hc
    subst hc
    rfl
  split at hpiece
  · cases hpiece
    rename_i hc
    subst hc
    rfl
  split at hpiece
  · cases hpiece
    rename_i hc
    subst hc
    rfl
  split at hpiece
  · rename_i hc
    subst hc
    dsimp only at hpiece
    split at hpiece
    · rename_i hclosed
      obtain ⟨body, hbody, hused⟩ := exists_quotable_of_closed hclosed
      cases hpiece
      rw [piece_string, hused, List.append_assoc, stringTail_of_isQuotable hbody]
      rfl
    · cases hpiece
  split at hpiece
  · rename_i hstart
    exact numberPiece_of_follows hstart hpiece h
  split at hpiece
  · cases hpiece
    rename_i hc
    obtain ⟨htake, hdrop⟩ := h.takeWhile (fun x hx => hx.part)
    rw [piece_of_isNameStart hc, htake, hdrop]
  · cases hpiece

end ShadingMachine.Text
