import ShadingMachine.Program.Loader

/-! What a reading keeps to. Tokens are taken from the front of those that are left, and errors are
about tokens that were taken, so that what holds of all tokens of a text holds of everything that is
read, and of every error. -/
namespace ShadingMachine

open Text

/-- The error is that a number is none. -/
def Text.Cause.isMisread : Cause → Bool
  | .invalidNumber _ => true
  | _ => false

namespace Loader

/-- What holds of a reading at any time, of the tokens it takes and the ranges it keeps, and of the
errors it ends with. -/
structure Terms where
  reading : Reading → Prop
  token : Token → Prop
  range : Span → Prop
  error : LoadError → Prop
  ranged {t : Token} : token t → range t.span
  peeked {r : Reading} : reading r →
    token (r.tokens.headD ⟨.endOfInput, "", .point (byteSize r.source.text)⟩)
  passed {r : Reading} {t : Token} {ts : List Token} : reading { r with tokens := t :: ts } →
    reading { r with tokens := ts, lastEnd := t.span.stop }
  dropped {r : Reading} {ts : List Token} : reading r → ts.Sublist r.tokens →
    reading { r with tokens := ts }
  noted {r : Reading} (log : Log) : reading r → reading { r with log }
  ended {r : Reading} : reading r → range (.point r.lastEnd)
  /-- An error about a range. -/
  reported {r : Reading} {span : Span} {cause : Cause} (suggestion : Option String) : reading r →
    range span → cause.isMisread = false → error (errorAt r.source cause span suggestion)
  /-- An error about a number that is none. -/
  misread {r : Reading} {t : Token} : reading r → token t → t.kind = .number →
    Number.numeral? t.text.toList = none → error (errorAt r.source (.invalidNumber t.text) t.span none)

/-- Reading keeps to the terms, and what is returned has the property. -/
def Terms.Keeps {α : Type} (T : Terms) (x : Load α) (P : α → Prop) : Prop :=
  ∀ r, T.reading r → match x r with
    | .ok a r' => P a ∧ T.reading r'
    | .error e _ => T.error e

variable {α β : Type} {T : Terms} {x : Load α} {P : α → Prop} {Q : β → Prop}

theorem Terms.Keeps.bind {f : α → Load β} (hx : T.Keeps x P) (hf : ∀ a, P a → T.Keeps (f a) Q) :
    T.Keeps (x >>= f) Q := by
  intro r hr
  have hxr := hx r hr
  simp only [Bind.bind, EStateM.bind]
  cases h : x r with
  | ok a s =>
    rw [h] at hxr
    exact hf a hxr.1 s hxr.2
  | error e s =>
    rw [h] at hxr
    exact hxr

theorem keeps_pure {a : α} (h : P a) : T.Keeps (pure a : Load α) P := fun _ hr => ⟨h, hr⟩

theorem keeps_get : T.Keeps get T.reading := fun _ hr => ⟨hr, hr⟩

variable {t : Token} {cause : Cause}

section Failing
variable (hcause : cause.isMisread = false)
include hcause

theorem keeps_failWith {span : Span} (h : T.range span) (suggestion : Option String) :
    T.Keeps (failWith cause span suggestion : Load α) P :=
  fun _ hr => T.reported suggestion hr h hcause

theorem keeps_fail (ht : T.token t) : T.Keeps (fail cause t : Load α) P :=
  keeps_failWith hcause (T.ranged ht) none

theorem keeps_unless {c : Prop} [Decidable c] {f : PUnit → Load α} (ht : T.token t)
    (hf : T.Keeps (f ⟨⟩) P) : T.Keeps (if c then fail cause t >>= f else f ⟨⟩) P := by
  split
  · have hfail : T.Keeps (fail cause t : Load PUnit) fun _ => True := keeps_fail hcause ht
    exact hfail.bind fun _ _ => hf
  · exact hf

end Failing

theorem keeps_foldlM {γ : Type} {f : β → γ → Load β} (as : List γ) {b : β} (hb : Q b)
    (hf : ∀ a ∈ as, ∀ b, Q b → T.Keeps (f b a) Q) : T.Keeps (as.foldlM f b) Q := by
  induction as generalizing b with
  | nil => exact keeps_pure hb
  | cons a as ih =>
    obtain ⟨ha, has⟩ := List.forall_mem_cons.mp hf
    exact (ha b hb).bind fun b' hb' => ih hb' has

theorem keeps_note (level : Level) (words : String) : T.Keeps (note level words) fun _ => True :=
  fun _ hr => ⟨trivial, T.noted _ hr⟩

theorem keeps_peek : T.Keeps peek T.token := fun _ hr => ⟨T.peeked hr, hr⟩

theorem keeps_skip : T.Keeps skip fun _ => True := by
  rintro ⟨source, tokens, lastEnd, log⟩ hr
  refine ⟨trivial, ?_⟩
  cases tokens with
  | nil => exact hr
  | cons t ts => exact T.passed hr

theorem keeps_expect (kind : TokenKind) (what : String) :
    T.Keeps (expect kind what) T.token := by
  refine keeps_peek.bind fun t ht => keeps_unless rfl ht ?_
  exact keeps_skip.bind fun _ _ => keeps_pure ht

theorem keeps_expectKeyword (keyword : String) :
    T.Keeps (expectKeyword keyword) fun _ => True := by
  exact keeps_peek.bind fun t ht => keeps_unless rfl ht keeps_skip

theorem keeps_version : T.Keeps version fun _ => True := by
  refine keeps_get.bind fun r hr => ?_
  dsimp only
  have hrest : T.Keeps (do
      let line := (dropBytes r.lastEnd r.source.text).takeWhile (· != '\n')
      set { r with tokens := r.tokens.dropWhile fun t =>
        t.kind != TokenKind.endOfInput && t.span.start < r.lastEnd + byteSize line }
      return String.ofList (trim (line.takeWhile (· != '#')))) fun _ => True :=
    fun _ _ => ⟨trivial, T.dropped hr (List.dropWhile_sublist _)⟩
  split
  · have hfail : T.Keeps (failWith (.expectedToken "version after AQSIS_V")
        (.point r.lastEnd) none : Load PUnit) fun _ => True :=
      keeps_failWith rfl (T.ended hr) none
    exact hfail.bind fun _ _ => hrest
  · exact hrest

theorem keeps_usesMask : T.Keeps usesMask fun _ => True := by
  refine (keeps_expect _ _).bind fun t ht => ?_
  split
  · dsimp only
    split
    · exact (keeps_note _ _).bind fun _ _ => keeps_pure trivial
    · exact keeps_pure trivial
  · exact keeps_fail rfl ht

theorem keeps_header : T.Keeps header fun _ => True := by
  refine (keeps_expect _ _).bind fun t ht => ?_
  split
  · refine (keeps_expectKeyword _).bind fun _ _ => keeps_version.bind fun v _ => ?_
    refine (keeps_expectKeyword _).bind fun _ _ => keeps_usesMask.bind fun u _ => ?_
    exact keeps_pure trivial
  · exact keeps_failWith rfl (T.ranged ht) _

theorem keeps_atSegmentEnd : T.Keeps atSegmentEnd fun _ => True :=
  keeps_peek.bind fun _ _ => keeps_pure trivial

theorem keeps_flags (n : Nat) (param output : Bool) :
    T.Keeps (flags n param output) fun found => T.token found.2.2 := by
  induction n generalizing param output with
  | zero => exact (keeps_expect _ _).bind fun t ht => keeps_pure ht
  | succ n ih =>
    refine (keeps_expect _ _).bind fun t ht => ?_
    split
    · exact ih true output
    · split
      · exact ih param true
      · exact keeps_pure ht

theorem keeps_arrayLength : T.Keeps arrayLength fun _ => True := by
  refine keeps_peek.bind fun t _ => ?_
  split
  · refine keeps_skip.bind fun _ _ => (keeps_expect _ _).bind fun t ht => ?_
    split
    · exact (keeps_expect _ _).bind fun _ _ => keeps_pure trivial
    · exact keeps_fail rfl ht
  · exact keeps_pure trivial

theorem keeps_declaration (p : Program) : T.Keeps (declaration p) fun _ => True := by
  refine keeps_get.bind fun r _ => (keeps_flags _ _ _).bind fun found ht => ?_
  obtain ⟨param, output, t⟩ := found
  dsimp only
  split
  · exact keeps_fail rfl ht
  · refine (keeps_expect _ _).bind fun t₁ ht₁ => ?_
    split
    · exact keeps_failWith rfl (T.ranged ht₁) _
    · refine (keeps_expect _ _).bind fun t₂ ht₂ => keeps_unless rfl ht₂ ?_
      exact keeps_arrayLength.bind fun _ _ => keeps_pure trivial

theorem keeps_declarations (n : Nat) (p : Program) :
    T.Keeps (declarations n p) fun _ => True := by
  induction n generalizing p with
  | zero => exact keeps_pure trivial
  | succ n ih =>
    refine keeps_atSegmentEnd.bind fun atEnd _ => ?_
    split
    · exact keeps_pure trivial
    · exact (keeps_declaration p).bind fun d _ => (keeps_note _ _).bind fun _ _ => ih _

theorem keeps_labelId (ht : T.token t) : T.Keeps (labelId t) fun _ => True := by
  unfold labelId
  dsimp only
  split
  · exact keeps_pure trivial
  · exact keeps_fail rfl ht

theorem keeps_variableRef (p : Program) (op : String) (needsArray : Bool)
    (ht : T.token t) : T.Keeps (variableRef p op needsArray t) fun _ => True := by
  unfold variableRef
  split
  · dsimp only
    refine keeps_unless rfl ht ?_
    exact keeps_unless rfl ht (keeps_pure trivial)
  · split
    · exact keeps_unless rfl ht (keeps_pure trivial)
    · exact keeps_failWith rfl (T.ranged ht) _

/-- The jumps of a segment in the making keep to the terms. -/
def Terms.Jumps (T : Terms) (d : Draft) : Prop := ∀ j ∈ d.jumps, T.range j.2

variable {d : Draft}

theorem keeps_operand (p : Program) (name : String) (code : Opcode) (kind : OperandKind)
    (hd : T.Jumps d) : T.Keeps (operand p name code d kind) T.Jumps := by
  refine keeps_peek.bind fun t ht => keeps_atSegmentEnd.bind fun atEnd _ => ?_
  refine keeps_unless rfl ht (keeps_skip.bind fun _ _ => ?_)
  split
  · rename_i hkind
    split
    · exact keeps_pure hd
    · rename_i hnone
      exact fun _ hr => T.misread hr ht hkind hnone
  · exact keeps_pure hd
  · exact (keeps_variableRef p name code.needsArray ht).bind fun _ _ => keeps_pure hd
  · refine (keeps_labelId ht).bind fun id _ => keeps_pure fun j hj => ?_
    rcases List.mem_append.mp hj with hj | hj
    · exact hd j hj
    · rw [List.mem_singleton.mp hj]
      exact T.ranged ht
  · exact keeps_fail rfl ht

theorem keeps_instruction (p : Program) (hd : T.Jumps d) (ht : T.token t) :
    T.Keeps (instruction p d t) T.Jumps := by
  unfold instruction
  split
  · rename_i operation _
    have hpush : T.Jumps (d.push (.opcode t.text operation)) := hd
    exact keeps_foldlM _ hpush fun kind _ d' hd' => keeps_operand p _ _ kind hd'
  · exact keeps_failWith rfl (T.ranged ht) _

theorem keeps_labelDefinition (hd : T.Jumps d) :
    T.Keeps (labelDefinition d) T.Jumps := by
  refine (keeps_expect _ _).bind fun t ht => (keeps_labelId ht).bind fun id _ => ?_
  exact keeps_unless rfl ht (keeps_pure hd)

theorem keeps_items (n : Nat) (p : Program) (hd : T.Jumps d) :
    T.Keeps (items n p d) T.Jumps := by
  induction n generalizing d with
  | zero => exact keeps_pure hd
  | succ n ih =>
    refine keeps_atSegmentEnd.bind fun atEnd _ => ?_
    split
    · exact keeps_pure hd
    · refine keeps_peek.bind fun t ht => keeps_skip.bind fun _ _ => ?_
      split
      · exact (keeps_labelDefinition hd).bind fun d' hd' => ih hd'
      · exact (keeps_instruction p hd ht).bind fun d' hd' => ih hd'
      · exact keeps_fail rfl ht

theorem keeps_resolve (s : Segment) {jump : Nat × Span} (hjump : T.range jump.2) :
    T.Keeps (resolve s jump) fun _ => True := by
  unfold resolve
  split
  · split
    · exact keeps_pure trivial
    · exact keeps_failWith rfl hjump none
  · exact keeps_pure trivial

theorem keeps_codeSegment (p : Program) (kind : SegmentKind) :
    T.Keeps (codeSegment p kind) fun _ => True := by
  refine keeps_get.bind fun r _ => ?_
  have hempty : T.Jumps ⟨.empty, []⟩ := fun j hj => by cases hj
  refine (keeps_items r.tokens.length p hempty).bind fun d hd => ?_
  have hresolved : T.Keeps (d.jumps.foldlM resolve d.segment) fun _ => True :=
    keeps_foldlM d.jumps trivial fun jump hjump s _ => keeps_resolve s (hd jump hjump)
  exact hresolved.bind fun s _ => (keeps_note _ _).bind fun _ _ => keeps_pure trivial

theorem keeps_segments (n next : Nat) (p : Program) :
    T.Keeps (segments n next p) fun _ => True := by
  induction n generalizing next p with
  | zero => exact keeps_pure trivial
  | succ n ih =>
    refine keeps_peek.bind fun _ _ => ?_
    split
    · exact keeps_pure trivial
    · refine (keeps_expectKeyword _).bind fun _ _ => (keeps_expect _ _).bind fun t ht => ?_
      split
      · exact keeps_failWith rfl (T.ranged ht) _
      · rename_i k _
        refine keeps_unless rfl ht ?_
        match k with
        | 0 =>
          exact keeps_get.bind fun r _ =>
            (keeps_declarations r.tokens.length p).bind fun p' _ => ih _ p'
        | 1 => exact (keeps_codeSegment p .init).bind fun p' _ => ih _ p'
        | k + 2 => exact (keeps_codeSegment p .code).bind fun p' _ => ih _ p'

theorem keeps_program : T.Keeps program fun _ => True := by
  refine keeps_header.bind fun p _ => keeps_get.bind fun r _ => ?_
  refine (keeps_segments r.tokens.length 0 p).bind fun p' _ => ?_
  exact (keeps_note _ _).bind fun _ _ => keeps_pure trivial

end Loader

/-- A text does not load for a fault of it, or for an error by the terms. -/
theorem Program.error_of_load {T : Loader.Terms} {text : List Char} {e : LoadError}
    (hstart : ∀ log, T.reading ⟨.ofChars (unifyLineEndings text).1,
      (scan (unifyLineEndings text).1).1, 0, log⟩) (h : (load text).1 = .error e) :
    (∃ d ∈ (scan (unifyLineEndings text).1).2,
      e = Loader.errorAt (.ofChars (unifyLineEndings text).1) (.reported d.message)
        (d.span.getD default) none) ∨ T.error e := by
  unfold load at h
  dsimp only at h
  split at h
  · rename_i d ds hscan
    cases h
    exact .inl ⟨d, hscan ▸ List.mem_cons_self, rfl⟩
  · have hkeeps := Loader.keeps_program (T := T) _ (hstart
      ((unifyLineEndings text).2.map fun d => Note.mk .warn d.message).toArray)
    split at h
    · cases h
    · rename_i e' r heq
      cases h
      rw [EStateM.run] at heq
      rw [heq] at hkeeps
      exact .inr hkeeps

end ShadingMachine
