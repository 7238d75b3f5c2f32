import ShadingMachine.Proofs.Loading.Spelling

/-! Reading from two texts at once. Where the tokens that are left are the same but for their places,
so is what is read: the results are related, and errors differ only in their places. -/
namespace ShadingMachine

open Text

/-- The same but for the place. -/
structure LoadError.Alike (e e' : LoadError) : Prop where
  cause : e'.cause = e.cause
  token : e'.token = e.token
  suggestion : e'.suggestion = e.suggestion

namespace Loader

variable {α β γ δ : Type} {s s' : Source}

/-- Tokens of two texts that are the same but for their places. -/
structure SameToken (s s' : Source) (t t' : Token) : Prop where
  kind : t'.kind = t.kind
  text : t'.text = t.text
  slice : s'.slice t'.span = s.slice t.span

/-- What is left of two texts to be read. -/
structure Reading.Alike (s s' : Source) (r r' : Reading) : Prop where
  source : r.source = s ∧ r'.source = s'
  tokens : List.Forall₂ (SameToken s s') r.tokens r'.tokens

/-- Both fail alike, or they return related results and come to such places. -/
def SameResult (s s' : Source) (R : α → β → Prop) :
    EStateM.Result LoadError Reading α → EStateM.Result LoadError Reading β → Prop
  | .ok a r, .ok b r' => R a b ∧ r.Alike s s' r'
  | .error e _, .error e' _ => e.Alike e'
  | _, _ => False

/-- So it is from all such places on. -/
def Alike (s s' : Source) (R : α → β → Prop) (x : Load α) (y : Load β) : Prop :=
  ∀ r r', Reading.Alike s s' r r' → SameResult s s' R (x r) (y r')

variable {x : Load α} {y : Load β} {R : α → β → Prop} {Q : γ → δ → Prop} {t t' : Token}

theorem SameResult.bind {r r' : Reading} {f : α → Load γ} {g : β → Load δ}
    (hxy : SameResult s s' R (x r) (y r'))
    (hfg : ∀ a b r₁ r₁', x r = .ok a r₁ → y r' = .ok b r₁' → R a b → r₁.Alike s s' r₁' →
      SameResult s s' Q (f a r₁) (g b r₁')) :
    SameResult s s' Q ((x >>= f) r) ((y >>= g) r') := by
  simp only [Bind.bind, EStateM.bind]
  cases hx : x r <;> cases hy : y r' <;> rw [hx, hy] at hxy
  · exact hfg _ _ _ _ hx hy hxy.1 hxy.2
  · exact hxy.elim
  · exact hxy.elim
  · exact hxy

theorem Alike.bind {f : α → Load γ} {g : β → Load δ} (hxy : Alike s s' R x y)
    (hfg : ∀ a b, R a b → Alike s s' Q (f a) (g b)) : Alike s s' Q (x >>= f) (y >>= g) :=
  fun r r' hr => (hxy r r' hr).bind fun a b r₁ r₁' _ _ hab hr₁ => hfg a b hab r₁ r₁' hr₁

theorem Alike.imp {R' : α → β → Prop} (h : Alike s s' R x y) (hR : ∀ a b, R a b → R' a b) :
    Alike s s' R' x y := by
  intro r r' hr
  have hresult := h r r' hr
  cases hx : x r <;> cases hy : y r' <;> rw [hx, hy] at hresult
  · exact ⟨hR _ _ hresult.1, hresult.2⟩
  · exact hresult.elim
  · exact hresult.elim
  · exact hresult

theorem alike_pure {a : α} {b : β} (h : R a b) : Alike s s' R (pure a) (pure b) :=
  fun _ _ hr => ⟨h, hr⟩

theorem alike_get : Alike s s' (Reading.Alike s s') get get := fun _ _ hr => ⟨hr, hr⟩

theorem alike_failWith {span span' : Span} (h : s'.slice span' = s.slice span) (cause : Cause)
    (suggestion : Option String) :
    Alike s s' R (failWith cause span suggestion) (failWith cause span' suggestion) := by
  intro r r' hr
  obtain ⟨rfl, rfl⟩ := hr.source
  exact ⟨rfl, congrArg String.ofList h, rfl⟩

theorem alike_fail (ht : SameToken s s' t t') (cause : Cause) :
    Alike s s' R (fail cause t) (fail cause t') :=
  alike_failWith ht.slice cause none

theorem alike_unless {c : Prop} [Decidable c] {cause : Cause} {f : PUnit → Load α}
    {g : PUnit → Load β} (ht : SameToken s s' t t') (hfg : Alike s s' R (f ⟨⟩) (g ⟨⟩)) :
    Alike s s' R (if c then fail cause t >>= f else f ⟨⟩)
      (if c then fail cause t' >>= g else g ⟨⟩) := by
  split
  · have hfail : Alike s s' (fun _ _ => True) (fail cause t : Load PUnit)
        (fail cause t' : Load PUnit) :=
      alike_fail ht cause
    exact hfail.bind fun _ _ _ => hfg
  · exact hfg

theorem alike_foldlM {as : List α} {bs : List β} {f : γ → α → Load γ} {g : δ → β → Load δ}
    (has : List.Forall₂ R as bs) (hfg : ∀ a b, R a b → ∀ c d, Q c d → Alike s s' Q (f c a) (g d b))
    {c : γ} {d : δ} (hcd : Q c d) : Alike s s' Q (as.foldlM f c) (bs.foldlM g d) := by
  induction has generalizing c d with
  | nil => exact alike_pure hcd
  | cons hab _ ih => exact (hfg _ _ hab c d hcd).bind fun _ _ h => ih h

theorem alike_note (level : Level) (words words' : String) :
    Alike s s' (fun _ _ => True) (note level words) (note level words') :=
  fun _ _ hr => ⟨trivial, hr.source, hr.tokens⟩

theorem slice_point (s : Source) (n : Nat) : s.slice (.point n) = [] := by
  show (cut? s.text ⟨_, max (min n (byteSize s.text)) (min n (byteSize s.text))⟩).getD [] = []
  rw [Nat.max_self, cut?]
  split
  · show takeBytes (min n (byteSize s.text) - min n (byteSize s.text)) _ = []
    rw [Nat.sub_self, takeBytes_zero]
  · rfl

theorem alike_peek : Alike s s' (SameToken s s') peek peek := by
  rintro ⟨source, tokens, lastEnd, log⟩ ⟨source', tokens', lastEnd', log'⟩ hr
  refine ⟨?_, hr⟩
  obtain ⟨⟨rfl, rfl⟩, htokens⟩ := hr
  cases htokens with
  | nil => exact ⟨rfl, rfl, (slice_point _ _).trans (slice_point _ _).symm⟩
  | cons ht _ => exact ht

theorem alike_skip : Alike s s' (fun _ _ => True) skip skip := by
  rintro ⟨source, tokens, lastEnd, log⟩ ⟨source', tokens', lastEnd', log'⟩ ⟨hsource, htokens⟩
  cases htokens with
  | nil => exact ⟨trivial, hsource, .nil⟩
  | cons _ hrest => exact ⟨trivial, hsource, hrest⟩

theorem alike_expect (kind : TokenKind) (what : String) :
    Alike s s' (SameToken s s') (expect kind what) (expect kind what) := by
  refine alike_peek.bind fun t t' ht => ?_
  rw [ht.kind]
  exact alike_unless ht (alike_skip.bind fun _ _ _ => alike_pure ht)

theorem alike_expectKeyword (keyword : String) :
    Alike s s' (fun _ _ => True) (expectKeyword keyword) (expectKeyword keyword) := by
  refine alike_peek.bind fun t t' ht => ?_
  rw [ht.kind, ht.text]
  exact alike_unless ht alike_skip

theorem alike_usesMask : Alike s s' Eq usesMask usesMask := by
  refine (alike_expect _ _).bind fun t t' ht => ?_
  rw [ht.text]
  split
  · dsimp only
    split
    · exact (alike_note _ _ _).bind fun _ _ _ => alike_pure rfl
    · exact alike_pure rfl
  · exact alike_fail ht _

theorem alike_atSegmentEnd : Alike s s' Eq atSegmentEnd atSegmentEnd := by
  refine alike_peek.bind fun t t' ht => ?_
  rw [ht.kind, ht.text]
  exact alike_pure rfl

theorem alike_flags (n : Nat) (param output : Bool) :
    Alike s s' (fun a b => (b.1, b.2.1) = (a.1, a.2.1) ∧ SameToken s s' a.2.2 b.2.2)
      (flags n param output) (flags n param output) := by
  induction n generalizing param output with
  | zero => exact (alike_expect _ _).bind fun t t' ht => alike_pure ⟨rfl, ht⟩
  | succ n ih =>
    refine (alike_expect _ _).bind fun t t' ht => ?_
    rw [ht.text]
    split
    · exact ih true output
    · split
      · exact ih param true
      · exact alike_pure ⟨rfl, ht⟩

theorem alike_arrayLength : Alike s s' Eq arrayLength arrayLength := by
  refine alike_peek.bind fun t t' ht => ?_
  rw [ht.kind]
  split
  · refine alike_skip.bind fun _ _ _ => (alike_expect _ _).bind fun t t' ht => ?_
    rw [ht.text]
    split
    · exact (alike_expect _ _).bind fun _ _ _ => alike_pure rfl
    · exact alike_fail ht _
  · exact alike_pure rfl

variable {p q : Program}

/-- Of a program, names are looked up among its locals only. -/
theorem alike_declaration (hpq : q.locals = p.locals) :
    Alike s s' Eq (declaration p) (declaration q) := by
  refine alike_get.bind fun r r' hr => ?_
  rw [hr.tokens.length_eq]
  refine (alike_flags _ _ _).bind fun found found' hfound => ?_
  obtain ⟨param, output, t⟩ := found
  obtain ⟨param', output', t'⟩ := found'
  obtain ⟨hflags, ht⟩ := hfound
  obtain ⟨rfl, rfl⟩ := Prod.mk.inj hflags
  dsimp only at ht ⊢
  rw [ht.text]
  split
  · exact alike_fail ht _
  · refine (alike_expect _ _).bind fun t₁ t₁' ht₁ => ?_
    rw [ht₁.text]
    split
    · exact alike_failWith ht₁.slice _ _
    · refine (alike_expect _ _).bind fun t₂ t₂' ht₂ => ?_
      rw [ht₂.text, Program.localIndex?_congr hpq]
      refine alike_unless ht₂ (alike_arrayLength.bind fun length length' hlength => ?_)
      rw [hlength]
      exact alike_pure rfl

/-- Programs that differ in their versions only. -/
structure Revised (v v' : String) (p q : Program) : Prop where
  version : p.version = v
  rest : q = { p with version := v' }

variable {v v' : String}

theorem Revised.locals (h : Revised v v' p q) : q.locals = p.locals := by rw [h.rest]

theorem Revised.eq (h : Revised v v p q) : p = q := by
  obtain ⟨rfl, rfl⟩ := h
  rfl

theorem Revised.push (h : Revised v v' p q) (d : Declaration) :
    Revised v v' { p with locals := p.locals.push d } { q with locals := q.locals.push d } :=
  ⟨h.version, by rw [h.rest]⟩

theorem Revised.setSegment (h : Revised v v' p q) (kind : SegmentKind) (s : Segment) :
    Revised v v' (p.setSegment kind s) (q.setSegment kind s) := by
  obtain ⟨hversion, rfl⟩ := h
  cases kind <;> exact ⟨hversion, rfl⟩

theorem alike_declarations (n : Nat) (h : Revised v v' p q) :
    Alike s s' (Revised v v') (declarations n p) (declarations n q) := by
  induction n generalizing p q with
  | zero => exact alike_pure h
  | succ n ih =>
    refine alike_atSegmentEnd.bind fun atEnd _ hend => ?_
    subst hend
    split
    · exact alike_pure h
    · refine (alike_declaration h.locals).bind fun d _ hd => ?_
      subst hd
      exact (alike_note _ _ _).bind fun _ _ _ => ih (h.push d)

theorem alike_labelId (ht : SameToken s s' t t') : Alike s s' Eq (labelId t) (labelId t') := by
  unfold labelId
  rw [ht.text]
  dsimp only
  split
  · exact alike_pure rfl
  · exact alike_fail ht _

theorem alike_variableRef (hpq : q.locals = p.locals) (op : String) (needsArray : Bool)
    (ht : SameToken s s' t t') :
    Alike s s' Eq (variableRef p op needsArray t) (variableRef q op needsArray t') := by
  unfold variableRef
  rw [ht.text, Program.localIndex?_congr hpq, hpq]
  split
  · dsimp only
    exact alike_unless ht (alike_unless ht (alike_pure rfl))
  · split
    · exact alike_unless ht (alike_pure rfl)
    · exact alike_failWith ht.slice _ _

/-- Segments in the making that are the same but for the places of their jumps. -/
structure Draft.Alike (s s' : Source) (d d' : Draft) : Prop where
  segment : d'.segment = d.segment
  jumps : List.Forall₂ (fun j j' => j'.1 = j.1 ∧ s'.slice j'.2 = s.slice j.2) d.jumps d'.jumps

variable {d d' : Draft}

theorem Draft.Alike.push (h : d.Alike s s' d') (e : Element) : (d.push e).Alike s s' (d'.push e) :=
  ⟨by rw [Draft.push, Draft.push, h.segment], h.jumps⟩

theorem alike_operand (hpq : q.locals = p.locals) (name : String) (code : Opcode)
    (kind : OperandKind) (hd : d.Alike s s' d') :
    Alike s s' (Draft.Alike s s') (operand p name code d kind) (operand q name code d' kind) := by
  refine alike_peek.bind fun t t' ht => alike_atSegmentEnd.bind fun atEnd _ hend => ?_
  subst hend
  rw [ht.kind]
  refine alike_unless ht (alike_skip.bind fun _ _ _ => ?_)
  split
  · rw [ht.text]
    split
    · exact alike_pure (hd.push _)
    · exact alike_fail ht _
  · rw [ht.text]
    exact alike_pure (hd.push _)
  · refine (alike_variableRef hpq name code.needsArray ht).bind fun ref _ href => ?_
    subst href
    exact alike_pure (hd.push _)
  · refine (alike_labelId ht).bind fun id _ hid => ?_
    subst hid
    refine alike_pure ⟨(hd.push _).segment, ?_⟩
    rw [hd.segment]
    exact List.rel_append hd.jumps (.cons ⟨rfl, ht.slice⟩ .nil)
  · have hdescribed : describeToken t' = describeToken t := by
      rw [describeToken, describeToken, ht.kind, ht.text]
    rw [hdescribed]
    exact alike_fail ht _

theorem alike_instruction (hpq : q.locals = p.locals) (hd : d.Alike s s' d')
    (ht : SameToken s s' t t') :
    Alike s s' (Draft.Alike s s') (instruction p d t) (instruction q d' t') := by
  unfold instruction
  rw [ht.text]
  split
  · rename_i operation _
    refine alike_foldlM (R := Eq) (List.forall₂_same.mpr fun _ _ => rfl) ?_ (hd.push _)
    intro kind _ hkind d d' hd
    subst hkind
    exact alike_operand hpq _ _ kind hd
  · exact alike_failWith ht.slice _ _

theorem alike_labelDefinition (hd : d.Alike s s' d') :
    Alike s s' (Draft.Alike s s') (labelDefinition d) (labelDefinition d') := by
  refine (alike_expect _ _).bind fun t t' ht => (alike_labelId ht).bind fun id _ hid => ?_
  subst hid
  rw [hd.segment]
  exact alike_unless ht (alike_pure ⟨rfl, hd.jumps⟩)

theorem alike_items (n : Nat) (hpq : q.locals = p.locals) (hd : d.Alike s s' d') :
    Alike s s' (Draft.Alike s s') (items n p d) (items n q d') := by
  induction n generalizing d d' with
  | zero => exact alike_pure hd
  | succ n ih =>
    refine alike_atSegmentEnd.bind fun atEnd _ hend => ?_
    subst hend
    split
    · exact alike_pure hd
    · refine alike_peek.bind fun t t' ht => alike_skip.bind fun _ _ _ => ?_
      rw [ht.kind]
      split
      · exact (alike_labelDefinition hd).bind fun d₁ d₁' hd₁ => ih hd₁
      · exact (alike_instruction hpq hd ht).bind fun d₁ d₁' hd₁ => ih hd₁
      · exact alike_fail ht _

theorem alike_resolve (s₀ : Segment) {j j' : Nat × Span}
    (h : j'.1 = j.1 ∧ s'.slice j'.2 = s.slice j.2) :
    Alike s s' Eq (resolve s₀ j) (resolve s₀ j') := by
  unfold resolve
  rw [h.1]
  split
  · split
    · exact alike_pure rfl
    · exact alike_failWith h.2 _ none
  · exact alike_pure rfl

theorem alike_codeSegment (kind : SegmentKind) (h : Revised v v' p q) :
    Alike s s' (Revised v v') (codeSegment p kind) (codeSegment q kind) := by
  refine alike_get.bind fun r r' hr => ?_
  rw [hr.tokens.length_eq]
  refine (alike_items _ h.locals ⟨rfl, .nil⟩).bind fun d d' hd => ?_
  rw [hd.segment]
  have hresolved : Alike s s' Eq (d.jumps.foldlM resolve d.segment)
      (d'.jumps.foldlM resolve d.segment) := by
    refine alike_foldlM hd.jumps (fun j j' hj s₀ _ hs₀ => ?_) rfl
    subst hs₀
    exact alike_resolve s₀ hj
  refine hresolved.bind fun s₁ _ hs₁ => (alike_note _ _ _).bind fun _ _ _ => ?_
  subst hs₁
  exact alike_pure (h.setSegment kind s₁)

theorem alike_segments (n next : Nat) (h : Revised v v' p q) :
    Alike s s' (Revised v v') (segments n next p) (segments n next q) := by
  induction n generalizing next p q with
  | zero => exact alike_pure h
  | succ n ih =>
    refine alike_peek.bind fun t t' ht => ?_
    rw [ht.kind]
    split
    · exact alike_pure h
    · refine (alike_expectKeyword _).bind fun _ _ _ => (alike_expect _ _).bind fun t t' ht => ?_
      rw [ht.text]
      split
      · exact alike_failWith ht.slice _ _
      · rename_i k _
        refine alike_unless ht ?_
        match k with
        | 0 =>
          refine alike_get.bind fun r r' hr => ?_
          rw [hr.tokens.length_eq]
          exact (alike_declarations _ h).bind fun p' q' h' => ih _ h'
        | 1 => exact (alike_codeSegment .init h).bind fun p' q' h' => ih _ h'
        | k + 2 => exact (alike_codeSegment .code h).bind fun p' q' h' => ih _ h'

end Loader

end ShadingMachine
