import ShadingMachine.Proofs.Loading.Accepts

/-! Reading from a given place. If it succeeds, something holds of the result and of what is still
to be read: here it matters which tokens were taken. -/
namespace ShadingMachine.Loader

open Text

variable {α β : Type}

/-- If reading from `r` succeeds, its result and the place it comes to are related. -/
def Reads (x : Load α) (r : Reading) (Q : α → Reading → Prop) : Prop :=
  ∀ a r', x r = .ok a r' → Q a r'

variable {x : Load α} {r : Reading} {Q Q' : α → Reading → Prop} {kind : TokenKind}

theorem Reads.imp (h : Reads x r Q) (hQ : ∀ a r', Q a r' → Q' a r') : Reads x r Q' :=
  fun a r' ha => hQ a r' (h a r' ha)

theorem Reads.bind {f : α → Load β} {Q' : β → Reading → Prop} (hx : Reads x r Q)
    (hf : ∀ a r', Q a r' → Reads (f a) r' Q') : Reads (x >>= f) r Q' := by
  intro b t h
  cases hxr : x r with
  | ok a s =>
    rw [bind_eq hxr] at h
    exact hf a s (hx a s hxr) b t h
  | error e s =>
    simp only [Bind.bind, EStateM.bind, hxr] at h
    cases h

theorem reads_pure {a : α} (h : Q a r) : Reads (pure a : Load α) r Q := by
  intro b t hb
  cases hb
  exact h

theorem reads_get {Q : Reading → Reading → Prop} (h : Q r r) : Reads get r Q := by
  intro b t hb
  cases hb
  exact h

theorem reads_failWith (cause : Cause) (span : Span) (suggestion : Option String) :
    Reads (failWith cause span suggestion : Load α) r Q := by
  intro a t h
  cases h

theorem reads_fail (cause : Cause) (t : Token) : Reads (fail cause t : Load α) r Q :=
  reads_failWith cause t.span none

theorem reads_unless {c : Prop} [Decidable c] {cause : Cause} {t : Token} {f : PUnit → Load α}
    (hf : ¬c → Reads (f ⟨⟩) r Q) : Reads (if c then fail cause t >>= f else f ⟨⟩) r Q := by
  split
  · have hfail : Reads (fail cause t : Load PUnit) r fun _ _ => False := reads_fail cause t
    exact hfail.bind fun _ _ h => h.elim
  · rename_i hc
    exact hf hc

theorem Yields.reads {P : α → Prop} (hx : Yields x P) (h : Reads x r Q) :
    Reads x r fun a r' => P a ∧ Q a r' :=
  fun a r' ha => ⟨hx r a r' ha, h a r' ha⟩

theorem reads_foldlM {f : β → α → Load β} {I : β → Reading → Prop} (as : List α) {b : β}
    (h₀ : I b r) (hf : ∀ a ∈ as, ∀ b r, I b r → Reads (f b a) r I) :
    Reads (as.foldlM f b) r I := by
  induction as generalizing b r with
  | nil => exact reads_pure h₀
  | cons a as ih =>
    obtain ⟨ha, has⟩ := List.forall_mem_cons.mp hf
    exact (ha b r h₀).bind fun b' r' hb' => ih hb' has

/-- The place after the next token. -/
def Reading.next (r : Reading) (t : Token) (ts : List Token) : Reading :=
  { r with tokens := ts, lastEnd := t.span.stop }

/-- The text is the same, and some tokens may have been taken. -/
structure Reading.After (r' r : Reading) : Prop where
  source : r'.source = r.source
  tokens : r'.tokens <:+ r.tokens

theorem Reading.After.refl (r : Reading) : r.After r := ⟨rfl, List.suffix_rfl⟩

theorem Reading.After.trans {r r' r'' : Reading} (h : r''.After r') (h' : r'.After r) :
    r''.After r :=
  ⟨h.source.trans h'.source, h.tokens.trans h'.tokens⟩

theorem Reading.after_next {t : Token} {ts : List Token} (h : r.tokens = t :: ts) :
    (r.next t ts).After r :=
  ⟨rfl, h ▸ List.suffix_cons t ts⟩

theorem reads_note (level : Level) (text : String) :
    Reads (note level text) r fun _ r' => r'.After r ∧ r'.tokens = r.tokens := by
  intro b t hb
  cases hb
  exact ⟨⟨rfl, List.suffix_rfl⟩, rfl⟩

/-- A token that is there, or the end. -/
theorem reads_peek : Reads peek r fun t r' =>
    r' = r ∧ ((∃ ts, r.tokens = t :: ts) ∨ r.tokens = [] ∧ t.kind = .endOfInput) := by
  intro t r' h
  cases h
  refine ⟨rfl, ?_⟩
  cases r.tokens with
  | nil => exact .inr ⟨rfl, rfl⟩
  | cons t ts => exact .inl ⟨ts, rfl⟩

theorem reads_skip {t : Token} {ts : List Token} (h : r.tokens = t :: ts) :
    Reads skip r fun _ r' => r' = r.next t ts := by
  intro b r' hb
  rw [skip_eq h] at hb
  cases hb
  rfl

theorem reads_expect (hkind : kind ≠ .endOfInput) (what : String) :
    Reads (expect kind what) r fun t r' =>
      t.kind = kind ∧ ∃ ts, r.tokens = t :: ts ∧ r' = r.next t ts := by
  refine reads_peek.bind fun t r' ht => reads_unless fun hk => ?_
  obtain ⟨rfl, ⟨ts, hts⟩ | ⟨-, hend⟩⟩ := ht
  · refine (reads_skip hts).bind fun _ r' hr' => reads_pure ⟨?_, ts, hts, hr'⟩
    exact Decidable.not_not.mp hk
  · exact absurd (hend.symm.trans (Decidable.not_not.mp hk)) hkind.symm

theorem reads_expectKeyword (keyword : String) :
    Reads (expectKeyword keyword) r fun _ r' => ∃ t ts,
      t.lexeme = (.word, keyword) ∧ r.tokens = t :: ts ∧ r' = r.next t ts := by
  refine reads_peek.bind fun t r' ht => reads_unless fun hk => ?_
  rw [not_or, Decidable.not_not, Decidable.not_not] at hk
  obtain ⟨rfl, ⟨ts, hts⟩ | ⟨-, hend⟩⟩ := ht
  · exact (reads_skip hts).imp fun _ r' hr' => ⟨t, ts, Prod.ext hk.1 hk.2, hts, hr'⟩
  · cases hk.1.symm.trans hend

/-- Nothing is left of a segment: the text ends or the next segment begins. -/
def AtEnd (ts : List Token) : Prop := ∀ t ∈ ts.head?, endsSegment t.lexeme = true

theorem reads_atSegmentEnd : Reads atSegmentEnd r fun atEnd r' => r' = r ∧
    if atEnd then AtEnd r.tokens
    else ∃ t ts, r.tokens = t :: ts ∧ endsSegment t.lexeme = false := by
  refine reads_peek.bind fun t r' ht => reads_pure ?_
  obtain ⟨rfl, ht⟩ := ht
  refine ⟨rfl, ?_⟩
  have hends : (t.kind == .endOfInput || (t.kind == .word && t.text == "segment")) =
      endsSegment t.lexeme := rfl
  rw [hends]
  split
  · rename_i hend
    intro t' ht'
    rcases ht with ⟨ts, hts⟩ | ⟨hnil, -⟩
    · rw [hts] at ht'
      cases ht'
      exact hend
    · rw [hnil] at ht'
      cases ht'
  · rename_i hend
    rcases ht with ⟨ts, hts⟩ | ⟨-, hkind⟩
    · exact ⟨t, ts, hts, Bool.eq_false_iff.mpr hend⟩
    · simp [endsSegment, Token.lexeme, hkind] at hend

end ShadingMachine.Loader
