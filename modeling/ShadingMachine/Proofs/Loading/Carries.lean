import ShadingMachine.Proofs.Loading.Parts
import ShadingMachine.Proofs.Loading.Rounds
import ShadingMachine.Proofs.Text.Appending

/-! Reading from a text that goes on. Where its tokens are the same up to the end of another text, the
same is read of both, and what is left is the same up to that end again. -/
namespace ShadingMachine.Loader

open Text

variable {α β : Type} {more : List Token}

/-- If reading from the first place succeeds, so it does from the second, and what is left goes on
in the same way. -/
def Carries (more : List Token) (x : Load α) (r r' : Reading) : Prop :=
  ∀ a r₁, x r = .ok a r₁ → ∃ r₁', x r' = .ok a r₁' ∧ GoesOn more r₁.tokens r₁'.tokens

variable {x : Load α} {r r' : Reading} {t : Token} {ts ts' : List Token}

theorem exists_of_bind {f : α → Load β} {b : β} {r₂ : Reading} (h : (x >>= f) r = .ok b r₂) :
    ∃ a r₁, x r = .ok a r₁ ∧ f a r₁ = .ok b r₂ := by
  cases hxr : x r with
  | ok a r₁ =>
    rw [bind_eq hxr] at h
    exact ⟨a, r₁, rfl, h⟩
  | error e r₁ =>
    simp only [Bind.bind, EStateM.bind, hxr] at h
    cases h

theorem Carries.bind {f : α → Load β} (hx : Carries more x r r')
    (hf : ∀ a r₁ r₁', x r = .ok a r₁ → x r' = .ok a r₁' → GoesOn more r₁.tokens r₁'.tokens →
      Carries more (f a) r₁ r₁') : Carries more (x >>= f) r r' := by
  intro b r₂ h
  obtain ⟨a, r₁, hxr, h⟩ := exists_of_bind h
  obtain ⟨r₁', hxr', h₁⟩ := hx a r₁ hxr
  rw [bind_eq hxr']
  exact hf a r₁ r₁' hxr hxr' h₁ b r₂ h

theorem carries_pure (h : GoesOn more r.tokens r'.tokens) (a : α) :
    Carries more (pure a) r r' := by
  intro b r₁ hb
  cases hb
  exact ⟨r', rfl, h⟩

theorem carries_failWith (cause : Cause) (span : Span) (suggestion : Option String) :
    Carries more (failWith cause span suggestion : Load α) r r' := by
  intro a r₁ h
  cases h

theorem carries_fail (cause : Cause) (t : Token) : Carries more (fail cause t : Load α) r r' :=
  carries_failWith cause t.span none

theorem carries_unless {c : Prop} [Decidable c] {cause : Cause} {t : Token} {f : PUnit → Load α}
    (hf : ¬c → Carries more (f ⟨⟩) r r') :
    Carries more (if c then fail cause t >>= f else f ⟨⟩) r r' := by
  split
  · intro a r₁ h
    cases h
  · rename_i hc
    exact hf hc

theorem carries_note (h : GoesOn more r.tokens r'.tokens) (level : Level) (words : String) :
    Carries more (note level words) r r' := by
  intro b r₁ hb
  cases hb
  exact ⟨_, rfl, h⟩

/-- The longer text allows more rounds, but they change nothing. -/
theorem carries_get {f : Reading → Load α} (hfuel : f r r = f r' r)
    (hf : Carries more (f r') r r') : Carries more (get >>= f) r r' := by
  intro a r₁ ha
  have ha : f r r = .ok a r₁ := ha
  rw [hfuel] at ha
  exact hf a r₁ ha

/-! At a token that is in both texts -/

theorem atSegmentEnd_eq (h : r.tokens = t :: ts) :
    atSegmentEnd r = .ok (endsSegment t.lexeme) r := by
  unfold atSegmentEnd
  rw [bind_eq (peek_eq h)]
  rfl

theorem arrayLength_eq_none (h : r.tokens = t :: ts) (ht : t.kind ≠ .leftBracket) :
    arrayLength r = .ok none r := by
  unfold arrayLength
  rw [bind_eq (peek_eq h), if_neg ht]
  rfl

section

variable (hr : r.tokens = t :: ts) (hr' : r'.tokens = t :: ts')
include hr hr'

theorem carries_peek {f : Token → Load α} (hf : Carries more (f t) r r') :
    Carries more (peek >>= f) r r' := by
  unfold Carries
  rw [bind_eq (peek_eq hr), bind_eq (peek_eq hr')]
  exact hf

theorem carries_atSegmentEnd {f : Bool → Load α}
    (hf : Carries more (f (endsSegment t.lexeme)) r r') :
    Carries more (atSegmentEnd >>= f) r r' := by
  unfold Carries
  rw [bind_eq (atSegmentEnd_eq hr), bind_eq (atSegmentEnd_eq hr')]
  exact hf

theorem carries_skip {f : PUnit → Load α}
    (hf : Carries more (f ⟨⟩) (r.next t ts) (r'.next t ts')) :
    Carries more (skip >>= f) r r' := by
  unfold Carries
  rw [bind_eq (skip_eq hr), bind_eq (skip_eq hr')]
  exact hf

end

/-! The parts of a program -/

section

variable (h : GoesOn more r.tokens r'.tokens)
include h

theorem exists_same_token (hr : r.tokens = t :: ts) (ht : t.kind ≠ .endOfInput) :
    ∃ ts', r'.tokens = t :: ts' ∧ GoesOn more ts ts' := by
  rw [hr] at h
  exact h.uncons ht

theorem carries_expect {kind : TokenKind} (hkind : kind ≠ .endOfInput) (what : String) :
    Carries more (expect kind what) r r' := by
  intro t r₁ ht
  obtain ⟨rfl, ts, hts, rfl⟩ := reads_expect hkind what t r₁ ht
  obtain ⟨ts', hts', h⟩ := exists_same_token h hts hkind
  exact ⟨r'.next t ts', expect_eq hts' what, h⟩

theorem carries_expectKeyword (keyword : String) :
    Carries more (expectKeyword keyword) r r' := by
  intro _ r₁ ht
  obtain ⟨t, ts, hlexeme, hts, rfl⟩ := reads_expectKeyword keyword _ r₁ ht
  obtain ⟨hkind, rfl⟩ := kind_of_lexeme hlexeme
  obtain ⟨ts', hts', h⟩ := exists_same_token h hts (by rw [hkind]; decide)
  exact ⟨r'.next t ts', expectKeyword_eq hts' hkind, h⟩

theorem carries_usesMask : Carries more usesMask r r' := by
  refine (carries_expect h (by decide) _).bind fun t r₁ r₁' _ _ h₁ => ?_
  split
  · dsimp only
    split
    · exact (carries_note h₁ _ _).bind fun _ _ _ _ _ h₂ => carries_pure h₂ _
    · exact carries_pure h₁ _
  · exact carries_fail _ t

theorem carries_labelId (t : Token) : Carries more (labelId t) r r' := by
  unfold labelId
  dsimp only
  split
  · exact carries_pure h _
  · exact carries_fail _ t

theorem carries_variableRef (p : Program) (op : String) (needsArray : Bool) (t : Token) :
    Carries more (variableRef p op needsArray t) r r' := by
  unfold variableRef
  split
  · exact carries_unless fun _ => carries_unless fun _ => carries_pure h _
  · split
    · exact carries_unless fun _ => carries_pure h _
    · exact carries_failWith _ _ _

theorem carries_resolve (s : Segment) (jump : Nat × Span) :
    Carries more (resolve s jump) r r' := by
  unfold resolve
  split
  · split
    · exact carries_pure h _
    · exact carries_failWith _ _ _
  · exact carries_pure h _

end

theorem carries_foldlM {f : β → α → Load β}
    (hf : ∀ a b r r', GoesOn more r.tokens r'.tokens → Carries more (f b a) r r') (as : List α)
    (b : β) {r r' : Reading} (h : GoesOn more r.tokens r'.tokens) :
    Carries more (as.foldlM f b) r r' := by
  induction as generalizing b r r' with
  | nil => exact carries_pure h b
  | cons a as ih => exact (hf a b r r' h).bind fun b' _ _ _ _ h₁ => ih b' h₁

section

variable (h : GoesOn more r.tokens r'.tokens)
include h

/-- The end is no operand, so an operand is in both texts. -/
theorem carries_operand (p : Program) (name : String) (code : Opcode) (d : Draft)
    (kind : OperandKind) : Carries more (operand p name code d kind) r r' := by
  generalize hts : r.tokens = ts at h
  generalize hts' : r'.tokens = ts' at h
  cases h with
  | last ht =>
    intro d' r₁ hd'
    unfold operand at hd'
    rw [bind_eq (peek_eq hts), bind_eq (atSegmentEnd_eq hts)] at hd'
    simp only [endsSegment, Token.lexeme, ht] at hd'
    cases hd'
  | cons _ h =>
    refine carries_peek hts hts' (carries_atSegmentEnd hts hts' (carries_unless fun _ => ?_))
    refine carries_skip hts hts' ?_
    split
    · split
      · exact carries_pure h _
      · exact carries_fail _ _
    · exact carries_pure h _
    · exact (carries_variableRef h _ _ _ _).bind fun _ _ _ _ _ h₁ => carries_pure h₁ _
    · exact (carries_labelId h _).bind fun _ _ _ _ _ h₁ => carries_pure h₁ _
    · exact carries_fail _ _

theorem carries_instruction (p : Program) (d : Draft) (t : Token) :
    Carries more (instruction p d t) r r' := by
  unfold instruction
  split
  · rename_i operation _
    exact carries_foldlM (fun kind d r r' h => carries_operand h p t.text operation.code d kind) _ _ h
  · exact carries_failWith _ _ _

theorem carries_labelDefinition (d : Draft) : Carries more (labelDefinition d) r r' := by
  refine (carries_expect h (by decide) _).bind fun t r₁ r₁' _ _ h₁ => ?_
  refine (carries_labelId h₁ t).bind fun id r₂ r₂' _ _ h₂ => ?_
  exact carries_unless fun _ => carries_pure h₂ _

theorem carries_flags (n : Nat) (param output : Bool) :
    Carries more (flags n param output) r r' := by
  induction n generalizing r r' param output with
  | zero =>
    exact (carries_expect h (by decide) _).bind fun t r₁ r₁' _ _ h₁ => carries_pure h₁ _
  | succ n ih =>
    refine (carries_expect h (by decide) _).bind fun t r₁ r₁' _ _ h₁ => ?_
    split
    · exact ih h₁ true output
    · split
      · exact ih h₁ param true
      · exact carries_pure h₁ _

variable (hmore : ∃ t ts, more = t :: ts ∧ t.kind = .word)
include hmore

omit h in
theorem ne_nil_of_word : more ≠ [] := by
  obtain ⟨t, ts, rfl, -⟩ := hmore
  exact List.cons_ne_nil t ts

/-- A bracket would go on with a declaration, but a word does not. -/
theorem carries_arrayLength : Carries more arrayLength r r' := by
  generalize hts : r.tokens = ts at h
  generalize hts' : r'.tokens = ts' at h
  cases h with
  | @last t ht =>
    obtain ⟨t', ts', rfl, ht'⟩ := hmore
    intro length r₁ hlength
    rw [arrayLength_eq_none hts (by simp [ht])] at hlength
    cases hlength
    have hgoes : GoesOn (t' :: ts') r.tokens r'.tokens := by
      rw [hts, hts']
      exact .last ht
    exact ⟨r', arrayLength_eq_none hts' (by simp [ht']), hgoes⟩
  | cons ht h =>
    refine carries_peek hts hts' ?_
    split
    · refine carries_skip hts hts' ?_
      refine (carries_expect h (by decide) _).bind fun t₁ r₁ r₁' _ _ h₁ => ?_
      split
      · exact (carries_expect h₁ (by decide) _).bind fun _ _ _ _ _ h₂ => carries_pure h₂ _
      · exact carries_fail _ _
    · refine carries_pure ?_ _
      rw [hts, hts']
      exact .cons ht h

theorem carries_declaration (p : Program) : Carries more (declaration p) r r' := by
  unfold declaration
  refine carries_get ?_ ?_
  · have hfuel := (endsWithin (h.length_le (ne_nil_of_word hmore))).flags false false
    simp only [Bind.bind, EStateM.bind, hfuel]
  · refine (carries_flags h _ _ _).bind fun found r₁ r₁' _ _ h₁ => ?_
    obtain ⟨param, output, t⟩ := found
    dsimp only
    split
    · exact carries_fail _ _
    · refine (carries_expect h₁ (by decide) _).bind fun t₂ r₂ r₂' _ _ h₂ => ?_
      split
      · exact carries_failWith _ _ _
      · refine (carries_expect h₂ (by decide) _).bind fun t₃ r₃ r₃' _ _ h₃ => ?_
        refine carries_unless fun _ => ?_
        exact (carries_arrayLength h₃ hmore).bind fun _ _ _ _ _ h₄ => carries_pure h₄ _

/-- The declarations of a segment that is not the last. -/
theorem carries_declarations (n : Nat) (p : Program) :
    ∀ q r₁, declarations n p r = .ok q r₁ → (∀ t, r₁.tokens = [t] → t.kind ≠ .endOfInput) →
      ∃ r₁', declarations n p r' = .ok q r₁' ∧ GoesOn more r₁.tokens r₁'.tokens := by
  induction n generalizing r r' p with
  | zero =>
    intro q r₁ hq _
    cases hq
    exact ⟨r', rfl, h⟩
  | succ n ih =>
    intro q r₁ hq hgoes
    generalize hts : r.tokens = ts at h
    generalize hts' : r'.tokens = ts' at h
    unfold declarations at hq ⊢
    cases h with
    | last ht =>
      rw [bind_eq (atSegmentEnd_eq hts)] at hq
      simp only [endsSegment, Token.lexeme, ht] at hq
      cases hq
      exact absurd ht (hgoes _ hts)
    | @cons t ts ts' ht h =>
      rw [bind_eq (atSegmentEnd_eq hts)] at hq
      rw [bind_eq (atSegmentEnd_eq hts')]
      have hwhole : GoesOn more r.tokens r'.tokens := by
        rw [hts, hts']
        exact .cons ht h
      cases hend : endsSegment t.lexeme with
      | true =>
        rw [hend] at hq
        cases hq
        exact ⟨r', rfl, hwhole⟩
      | false =>
        rw [hend] at hq
        obtain ⟨d, r₂, hd, hq⟩ := exists_of_bind hq
        obtain ⟨_, r₃, hnote, hq⟩ := exists_of_bind hq
        obtain ⟨r₂', hd', h₂⟩ := carries_declaration hwhole hmore p d r₂ hd
        obtain ⟨r₃', hnote', h₃⟩ := carries_note h₂ _ _ _ r₃ hnote
        obtain ⟨r₁', hq', h₁⟩ := ih h₃ _ q r₁ hq hgoes
        exact ⟨r₁', (bind_eq hd').trans ((bind_eq hnote').trans hq'), h₁⟩

end

end ShadingMachine.Loader
