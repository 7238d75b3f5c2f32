import ShadingMachine.Program.Loader
import ShadingMachine.Proofs.Text.Lexing

/-! What holds of the result of reading if it succeeds, and reading that succeeds. What is read depends
on the lexemes of the tokens and not on their places, which matter for errors only. -/
namespace ShadingMachine.Loader

open Text

variable {α β : Type}

section Yields

/-- Whatever is returned, if reading succeeds, has the property. -/
def Yields (x : Load α) (P : α → Prop) : Prop := ∀ r a t, x r = .ok a t → P a

variable {x : Load α} {P P' : α → Prop} {Q : β → Prop}

theorem Yields.bind {f : α → Load β} (hx : Yields x P) (hf : ∀ a, P a → Yields (f a) Q) :
    Yields (x >>= f) Q := by
  intro r b t h
  cases hxr : x r with
  | ok a s =>
    have hb : f a s = .ok b t := by simpa only [Bind.bind, EStateM.bind, hxr] using h
    exact hf a (hx r a s hxr) s b t hb
  | error e s =>
    simp only [Bind.bind, EStateM.bind, hxr] at h
    cases h

theorem Yields.imp (hx : Yields x P) (h : ∀ a, P a → P' a) : Yields x P' :=
  fun r a t ha => h a (hx r a t ha)

theorem yields_pure {a : α} (h : P a) : Yields (pure a : Load α) P := by
  intro r b t hb
  cases hb
  exact h

theorem yields_any (x : Load α) : Yields x fun _ => True := fun _ _ _ _ => trivial

/-- The property of what follows a computation whose result says nothing. -/
theorem Yields.after {f : α → Load β} (hf : ∀ a, Yields (f a) Q) : Yields (x >>= f) Q :=
  (yields_any x).bind fun a _ => hf a

theorem yields_failWith (cause : Cause) (span : Span) (suggestion : Option String) :
    Yields (failWith cause span suggestion : Load α) P := by
  intro r a t h
  cases h

theorem yields_fail (cause : Cause) (t : Token) : Yields (fail cause t : Load α) P :=
  yields_failWith cause t.span none

/-- What follows a check may use what was checked. -/
theorem yields_unless {c : Prop} [Decidable c] {cause : Cause} {t : Token} {f : PUnit → Load α}
    (hf : ¬c → Yields (f ⟨⟩) P) :
    Yields (if c then fail cause t >>= f else f ⟨⟩) P := by
  split
  · have hfail : Yields (fail cause t : Load PUnit) fun _ => False := yields_fail cause t
    exact hfail.bind fun _ h => h.elim
  · rename_i hc
    exact hf hc

theorem yields_foldlM {γ : Type} {f : β → γ → Load β} {I : List γ → β → Prop} (as : List γ)
    {b : β} (h₀ : I [] b)
    (hf : ∀ done b a, I done b → Yields (f b a) fun b' => I (done ++ [a]) b') :
    Yields (as.foldlM f b) fun b' => I as b' := by
  have hgo (rest done : List γ) (b : β) (hb : I done b) :
      Yields (rest.foldlM f b) fun b' => I (done ++ rest) b' := by
    induction rest generalizing done b with
    | nil =>
      rw [List.append_nil]
      exact yields_pure hb
    | cons a rest ih =>
      refine (hf done b a hb).bind fun b' hb' => ?_
      have hrest := ih (done ++ [a]) b' hb'
      rwa [List.append_assoc] at hrest
  exact hgo as [] b h₀

end Yields

def Reading.lexemes (r : Reading) : List Lexeme := r.tokens.map Token.lexeme

/-- Where the lexemes `before` are still to be read, reading returns something with the property
and leaves the lexemes `after`. -/
def Accepts (x : Load α) (before after : List Lexeme) (P : α → Prop) : Prop :=
  ∀ r : Reading, r.lexemes = before → ∃ a r', x r = .ok a r' ∧ r'.lexemes = after ∧ P a

variable {x : Load α} {P P' : α → Prop} {Q : β → Prop} {before between after : List Lexeme}
  {l : Lexeme} {ls : List Lexeme}

theorem Accepts.imp (hx : Accepts x before after P) (h : ∀ a, P a → P' a) :
    Accepts x before after P' := by
  intro r hr
  obtain ⟨a, r', hok, hr', ha⟩ := hx r hr
  exact ⟨a, r', hok, hr', h a ha⟩

/-- What follows a computation that succeeds goes on from the place it came to. -/
theorem bind_eq {f : α → Load β} {a : α} {r r' : Reading} (h : x r = .ok a r') :
    (x >>= f) r = f a r' := by
  simp only [Bind.bind, EStateM.bind, h]

theorem Accepts.bind {f : α → Load β} (hx : Accepts x before between P)
    (hf : ∀ a, P a → Accepts (f a) between after Q) : Accepts (x >>= f) before after Q := by
  intro r hr
  obtain ⟨a, r₁, hok, hr₁, ha⟩ := hx r hr
  obtain ⟨b, r₂, hok', hr₂, hb⟩ := hf a ha r₁ hr₁
  exact ⟨b, r₂, (bind_eq hok).trans hok', hr₂, hb⟩

theorem accepts_pure {a : α} (h : P a) : Accepts (pure a : Load α) before before P :=
  fun r hr => ⟨a, r, rfl, hr, h⟩

theorem accepts_get : Accepts get before before fun r => r.lexemes = before :=
  fun r hr => ⟨r, r, rfl, hr, hr⟩

/-- A check that does not fail. -/
theorem accepts_unless {c : Prop} [Decidable c] (hc : ¬c) {cause : Cause} {t : Token}
    {f : PUnit → Load α} (hf : Accepts (f ⟨⟩) before after P) :
    Accepts (if c then fail cause t >>= f else f ⟨⟩) before after P := by
  rwa [if_neg hc]

theorem accepts_note (level : Level) (text : String) :
    Accepts (note level text) before before fun _ => True :=
  fun r hr => ⟨⟨⟩, { r with log := r.log.push ⟨level, text⟩ }, rfl, hr, trivial⟩

theorem accepts_peek : Accepts peek (l :: ls) (l :: ls) fun t => t.lexeme = l := by
  intro r hr
  obtain ⟨t, ts, htokens, ht, -⟩ := List.map_eq_cons_iff.mp hr
  refine ⟨t, r, ?_, hr, ht⟩
  have hhead : r.tokens.headD ⟨.endOfInput, "", .point (byteSize r.source.text)⟩ = t := by
    rw [htokens]
    rfl
  exact congrArg (EStateM.Result.ok · r) hhead

theorem skip_eq {r : Reading} {t : Token} {ts : List Token} (h : r.tokens = t :: ts) :
    skip r = .ok ⟨⟩ { r with tokens := ts, lastEnd := t.span.stop } := by
  obtain ⟨source, tokens, lastEnd, log⟩ := r
  cases h
  rfl

theorem accepts_skip : Accepts skip (l :: ls) ls fun _ => True := by
  intro r hr
  obtain ⟨t, ts, htokens, -, hts⟩ := List.map_eq_cons_iff.mp hr
  exact ⟨⟨⟩, { r with tokens := ts, lastEnd := t.span.stop }, skip_eq htokens, hts, trivial⟩

theorem kind_of_lexeme {t : Token} {kind : TokenKind} {text : String}
    (h : t.lexeme = (kind, text)) : t.kind = kind ∧ t.text = text := Prod.mk.inj h

theorem accepts_expect (kind : TokenKind) (text what : String) :
    Accepts (expect kind what) ((kind, text) :: ls) ls fun t => t.lexeme = (kind, text) := by
  refine accepts_peek.bind fun t ht => accepts_unless ?_ ?_
  · simpa using (kind_of_lexeme ht).1
  · exact accepts_skip.bind fun _ _ => accepts_pure ht

theorem accepts_expectKeyword (keyword : String) :
    Accepts (expectKeyword keyword) ((.word, keyword) :: ls) ls fun _ => True := by
  refine accepts_peek.bind fun t ht => accepts_unless ?_ accepts_skip
  obtain ⟨hkind, htext⟩ := kind_of_lexeme ht
  simp [hkind, htext]

/-- The next segment or the end of the text. -/
def endsSegment (l : Lexeme) : Bool := l.1 == .endOfInput || l == (.word, "segment")

theorem accepts_atSegmentEnd :
    Accepts atSegmentEnd (l :: ls) (l :: ls) (· = endsSegment l) := by
  refine accepts_peek.bind fun t ht => accepts_pure ?_
  subst ht
  rfl

end ShadingMachine.Loader
