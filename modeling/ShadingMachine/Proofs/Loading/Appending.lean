import ShadingMachine.Proofs.Loading.LastSegment
import ShadingMachine.Proofs.Listing.Reload

/-! Loading texts with more instructions at their ends. Each local can be pushed and popped there,
but for one that is called like the word for a segment: as an operand this word is not taken. -/
namespace ShadingMachine

open Text

/-- The segment with more elements behind its own. -/
def Segment.extend (s : Segment) (es : List Element) : Segment :=
  { s with elements := s.elements ++ es.toArray }

namespace Loader

variable {r r' r₁ : Reading} {s s' : Segment} {es : List Element} {t : Token} {ts : List Token}
  {p q : Program} {d : Draft} {kind : SegmentKind} {shader : ShaderKind} {more : List Token}
  {body ls : List Lexeme}

/-! A segment that is complete with more elements -/

theorem resolve_settled {jump : Nat × Span} (h : SettledAt s jump.1) : resolve s jump = pure s := by
  unfold resolve
  split
  · rename_i id hid
    exact absurd hid (h id)
  · rfl

theorem resolve_unresolved {jump : Nat × Span} {id : Nat}
    (h : s.elements[jump.1]? = some (.unresolved id)) : resolve s jump = match s.label? id with
      | some l => pure { s with elements := s.elements.setIfInBounds jump.1 (.label l) }
      | none => failWith (.undefinedLabel id) jump.2 none := by
  unfold resolve
  split
  · rename_i id' hid
    cases hid.symm.trans h
    rfl
  · rename_i hsettled
    exact absurd h (hsettled id)

section

variable (hes : ∀ e ∈ es, ¬IsUnresolved e)
include hes

theorem settledAt_extend {k : Nat} (h : SettledAt s k) : SettledAt (s.extend es) k := by
  intro id hid
  have hid : (s.elements ++ es.toArray)[k]? = some (.unresolved id) := hid
  rw [Array.getElem?_append] at hid
  split at hid
  · exact h id hid
  · exact hes _ (List.mem_toArray.mp (Array.mem_of_getElem? hid)) ⟨id, rfl⟩

/-- More elements do not matter to the jumps among the others. -/
theorem resolve_extend {jump : Nat × Span} (h : resolve s jump r = .ok s' r₁) :
    resolve (s.extend es) jump r' = .ok (s'.extend es) r' := by
  by_cases hsettled : SettledAt s jump.1
  · rw [resolve_settled hsettled] at h
    rw [resolve_settled (settledAt_extend hes hsettled)]
    cases h
    rfl
  · obtain ⟨id, hid⟩ : ∃ id, s.elements[jump.1]? = some (.unresolved id) := by
      simpa [SettledAt] using hsettled
    have hlt := (Array.getElem?_eq_some_iff.mp hid).1
    have hid' : (s.extend es).elements[jump.1]? = some (.unresolved id) :=
      (Array.getElem?_append_left hlt).trans hid
    rw [resolve_unresolved hid] at h
    rw [resolve_unresolved hid', show (s.extend es).label? id = s.label? id from rfl]
    cases hl : s.label? id with
    | some l =>
      rw [hl] at h
      cases h
      simp only [Segment.extend, Array.setIfInBounds_append_left hlt]
      rfl
    | none =>
      rw [hl] at h
      cases h

theorem resolveAll_extend (jumps : List (Nat × Span)) (h : jumps.foldlM resolve s r = .ok s' r₁) :
    jumps.foldlM resolve (s.extend es) r' = .ok (s'.extend es) r' := by
  induction jumps generalizing s r with
  | nil =>
    cases h
    rfl
  | cons jump jumps ih =>
    rw [List.foldlM_cons] at h ⊢
    obtain ⟨s₁, r₂, hjump, hrest⟩ := exists_of_bind h
    exact (bind_eq (resolve_extend hes hjump)).trans (ih hrest)

/-- The draft with more elements behind its own. -/
def Draft.extend (d : Draft) (es : List Element) : Draft := { d with segment := d.segment.extend es }

omit hes in
theorem Draft.extend_extend (d : Draft) (es es' : List Element) :
    (d.extend es).extend es' = d.extend (es ++ es') := by
  simp [Draft.extend, Segment.extend]

theorem complete_extend (h : complete p kind d r = .ok q r₁) : ∃ s, q = p.setSegment kind s ∧
    ∀ r', ∃ r₁', r₁'.tokens = r'.tokens ∧
      complete p kind (d.extend es) r' = .ok (p.setSegment kind (s.extend es)) r₁' := by
  obtain ⟨s, r₂, hs, hq⟩ := exists_of_bind h
  cases hq
  refine ⟨s, rfl, fun r' => ⟨_, ?_, bind_eq (resolveAll_extend hes d.jumps hs)⟩⟩
  rfl

end

/-! Instructions that push and pop a local -/

/-- A mnemonic with a local behind it. -/
def useLocal (name : String) (operation : Operation) (k : Nat) : List Element :=
  [.opcode name operation, .variable (.declared k)]

theorem extend_useLocal (d : Draft) (name : String) (operation : Operation) (k : Nat) :
    d.extend (useLocal name operation k) =
      (d.push (.opcode name operation)).push (.variable (.declared k)) := by
  rw [Draft.push, Draft.push, Array.push_eq_append, Array.push_eq_append, Array.append_assoc]
  rfl

/-- At a mnemonic its operands are read. -/
theorem items_opcode {name : String} {operation : Operation}
    (hr : r.lexemes = (.word, name) :: ls) (hname : Mnemonic.operation? name = some operation)
    (n : Nat) : ∃ t ts, ts.map Token.lexeme = ls ∧ items (n + 1) p d r =
      (operation.operands.foldlM (operand p name operation.code) (d.push (.opcode name operation)) >>=
        items n p) (r.next t ts) := by
  obtain ⟨t, ts, hts, ht, hls⟩ := List.map_eq_cons_iff.mp hr
  have hends : endsSegment t.lexeme = false := by
    rw [ht]
    exact endsSegment_opcode hname
  obtain ⟨hkind, rfl⟩ := kind_of_lexeme ht
  refine ⟨t, ts, hls, ?_⟩
  rw [items_token hts hends, item, hkind]
  dsimp only
  rw [instruction, hname]

section

variable {name x : String} {code : Opcode} {k : Nat} (hx : x ≠ "segment")
  (hk : p.localIndex? x = some k) (hscalar : p.locals[k]?.bind (·.arrayLength) = none)
  (hcode : code.needsArray = false)
include hx hk hscalar hcode

theorem operand_local (hr : r.tokens = t :: ts) (ht : t.lexeme = (.word, x)) :
    operand p name code d .variable r =
      .ok (d.push (.variable (.declared k))) (r.next t ts) := by
  have hends : endsSegment t.lexeme = false := by
    rw [ht]
    simp [endsSegment, hx]
  obtain ⟨hkind, rfl⟩ := kind_of_lexeme ht
  have hlocal : variableRef p name code.needsArray t = pure (.declared k) := by
    unfold variableRef
    simp [hk, hscalar, hcode]
  rw [operand, bind_eq (peek_eq hr), bind_eq (atSegmentEnd_eq hr), hends, hkind]
  show (skip >>= _) r = _
  rw [bind_eq (skip_eq hr), hlocal]
  rfl

theorem items_useLocal (hr : r.lexemes = (.word, name) :: (.word, x) :: ls)
    (hname : Mnemonic.operation? name = some ⟨code, [.variable]⟩) (n : Nat) :
    ∃ r', items (n + 1) p d r = items n p (d.extend (useLocal name ⟨code, [.variable]⟩ k)) r' ∧
      r'.lexemes = ls := by
  obtain ⟨word, _, hls, hitems⟩ := items_opcode (p := p) (d := d) hr hname n
  obtain ⟨named, ts, rfl, hnamed, rfl⟩ := List.map_eq_cons_iff.mp hls
  have hoperand : [OperandKind.variable].foldlM (operand p name code)
      (d.push (.opcode name ⟨code, [.variable]⟩)) (r.next word (named :: ts)) =
      .ok (d.extend (useLocal name ⟨code, [.variable]⟩ k))
        ((r.next word (named :: ts)).next named ts) := by
    rw [extend_useLocal]
    exact bind_eq (operand_local hx hk hscalar hcode rfl hnamed)
  exact ⟨_, hitems.trans (bind_eq hoperand), rfl⟩

end

/-- Reading stops at the first error. -/
theorem bind_eq_error {α β : Type} {x : Load α} {f : α → Load β} {e : LoadError}
    (h : x r = .error e r₁) : (x >>= f) r = .error e r₁ := by
  simp only [Bind.bind, EStateM.bind, h]

/-- The word for a segment is no operand. -/
theorem operand_segment (hr : r.tokens = t :: ts) (ht : t.lexeme = (.word, "segment"))
    (name : String) (code : Opcode) (kind : OperandKind) : operand p name code d kind r =
      .error (errorAt r.source (.missingOperand name kind.describe) t.span none) r := by
  rw [operand, bind_eq (peek_eq hr), bind_eq (atSegmentEnd_eq hr), ht]
  rfl

theorem items_useSegment {name : String} {code : Opcode} {kind : OperandKind}
    {kinds : List OperandKind} (hr : r.lexemes = (.word, name) :: (.word, "segment") :: ls)
    (hname : Mnemonic.operation? name = some ⟨code, kind :: kinds⟩) (n : Nat) :
    ∃ e r', items (n + 1) p d r = .error e r' ∧ e.cause = .missingOperand name kind.describe := by
  obtain ⟨word, _, hls, hitems⟩ := items_opcode (p := p) (d := d) hr hname n
  obtain ⟨named, ts, rfl, hnamed, -⟩ := List.map_eq_cons_iff.mp hls
  have hoperand : (kind :: kinds).foldlM (operand p name code)
      (d.push (.opcode name ⟨code, kind :: kinds⟩)) (r.next word (named :: ts)) =
      .error (errorAt r.source (.missingOperand name kind.describe) named.span none)
        (r.next word (named :: ts)) :=
    bind_eq_error (operand_segment rfl hnamed name code kind)
  exact ⟨_, _, hitems.trans (bind_eq_error hoperand), rfl⟩

/-! The place where the longer text goes on -/

/-- The front is in both texts. -/
theorem BehindFront.carried {kind : ShaderKind} {first second : Token}
    (hr : BehindFront kind r r₁ first second) (h : GoesOn more r.tokens r'.tokens) :
    ∃ r₁', BehindFront kind r' r₁' first second ∧ GoesOn more r₁.tokens r₁'.tokens := by
  obtain ⟨ts, hts, h₁⟩ := exists_same_token h hr.tokens (by rw [hr.word]; decide)
  obtain ⟨ts', rfl, h₂⟩ := h₁.uncons (by rw [(kind_of_lexeme hr.lexeme).1]; decide)
  exact ⟨⟨_, ts', _, _⟩, ⟨hts, hr.word, hr.kind, hr.lexeme, rfl⟩, h₂⟩

/-- What is noted of a program that is read. -/
def announce (p : Program) : Load Program := do
  note .debug (s!"loaded {p.kind.keyword} program: {p.locals.size} locals, " ++
    s!"{p.init.instructionCount} init and {p.code.instructionCount} code instructions")
  return p

theorem behindVersion_eq (kind : ShaderKind) (version : String) : behindVersion kind version = (do
    expectKeyword "USES"
    let uses ← usesMask
    let r ← get
    segments r.tokens.length 0 ⟨kind, version, uses, #[], .empty, .empty⟩ >>= announce) := rfl

/-- Without the word for a segment there is none. -/
theorem reads_segments_none {n next : Nat} (hr : (.word, "segment") ∉ r.lexemes) (p : Program) :
    Reads (segments n next p) r fun q _ => q = p := by
  cases n with
  | zero => exact reads_pure rfl
  | succ n =>
    refine (reads_segments_succ n next p).imp fun q r₁ h => ?_
    rcases h with ⟨-, hq, -⟩ | ⟨k, r₂, word, name, hheader, -⟩
    · exact hq
    · refine absurd (List.mem_map.mpr ⟨word, ?_, hheader.keyword⟩) hr
      rw [hheader.tokens]
      exact List.mem_cons_self

/-- Reading the longer text comes to the place where the shorter, which is the program `p`, ends:
`q` is what its segments begin with. -/
def Resumes (more : List Token) (p : Program) (x : Load Program) (r : Reading) : Prop :=
  ∃ n q r' p₀ d, x r = (segments n 0 q >>= announce) r' ∧ ComesTo more p₀ p d (segments n 0 q) r'

section

variable (h : GoesOn more r.tokens r'.tokens)
  (hmore : ∃ t ts, more = t :: ts ∧ t.kind = .word) (hlocals : p.locals ≠ #[])
include h hmore hlocals

theorem behindVersion_resumes (hcode : EndsInCode body ls) (hr : r.lexemes <:+ ls) {version : String}
    (hok : behindVersion shader version r = .ok p r₁) :
    Resumes more p (behindVersion shader version) r' := by
  rw [behindVersion_eq] at hok ⊢
  obtain ⟨_, r₂, hkeyword, hok⟩ := exists_of_bind hok
  obtain ⟨uses, r₃, huses, hok⟩ := exists_of_bind hok
  have hok : (segments r₃.tokens.length 0 _ >>= announce) r₃ = .ok p r₁ := hok
  obtain ⟨_, r₄, hsegments, hp⟩ := exists_of_bind hok
  cases hp
  obtain ⟨r₂', hkeyword', h₂⟩ := carries_expectKeyword h _ _ r₂ hkeyword
  obtain ⟨r₃', huses', h₃⟩ := carries_usesMask h₂ uses r₃ huses
  obtain ⟨t, ts, -, hts, rfl⟩ := reads_expectKeyword _ _ _ hkeyword
  have hafter := (reads_usesMask uses r₃ huses).1.trans (Reading.after_next hts)
  rcases hcode.of_suffix ((hafter.tokens.map Token.lexeme).trans hr) with hr₃ | hnone
  · have hlength := h₃.length_le (ne_nil_of_word hmore)
    rw [← (endsWithin hlength).segments] at hsegments
    obtain ⟨p₀, d, hcomes⟩ := segments_carried h₃ hmore hlength hr₃ hsegments
    exact ⟨_, _, r₃', p₀, d, (bind_eq hkeyword').trans (bind_eq huses'), hcomes⟩
  · -- Without a segment there are no locals.
    have hq := reads_segments_none hnone _ _ _ hsegments
    exact absurd (congrArg Program.locals hq) hlocals

/-- The same version is read of both texts. -/
theorem program_resumes (hcode : EndsInCode body r.lexemes)
    (hline : ∀ t ∈ r.tokens, t.kind ≠ .endOfInput →
      (dropBytes t.span.stop r'.source.text).takeWhile (· != '\n') =
        (dropBytes t.span.stop r.source.text).takeWhile (· != '\n'))
    (hok : program r = .ok p r₁) : Resumes more p program r' := by
  obtain ⟨kind, first, second, r₂, hfront, hversion, hok⟩ := reads_parts p r₁ hok
  obtain ⟨r₂', hfront', h₂⟩ := hfront.carried h
  have hsecond : second.kind ≠ .endOfInput := by
    rw [(kind_of_lexeme hfront.lexeme).1]
    decide
  have hsame : r₂'.line = r₂.line := by
    rw [Reading.line, Reading.line, hfront.lastEnd, hfront'.lastEnd, hfront.source, hfront'.source]
    exact hline second (by rw [hfront.tokens]; simp) hsecond
  have hbehind : GoesOn more r₂.behindLine.tokens r₂'.behindLine.tokens := by
    rw [behindVersion_eq] at hok
    obtain ⟨_, r₃, hkeyword, -⟩ := exists_of_bind hok
    obtain ⟨t, ts, ht, hts, -⟩ := reads_expectKeyword _ _ _ hkeyword
    have hgoes := h₂.dropWhile hts (by rw [(kind_of_lexeme ht).1]; decide)
    rw [Reading.behindLine, Reading.behindLine, hsame, hfront.lastEnd, hfront'.lastEnd]
    rwa [hfront.lastEnd] at hgoes
  have hsuffix : r₂.behindLine.tokens <:+ r.tokens := by
    rw [hfront.tokens]
    exact (List.dropWhile_suffix _).trans (List.suffix_append [first, second] _)
  rw [Resumes, hfront'.program_eq (by rwa [hsame]), hsame]
  exact behindVersion_resumes hbehind hmore hlocals hcode (hsuffix.map Token.lexeme) hok

end

/-! Pushing and popping a local -/

/-- A line that says a mnemonic and a variable. -/
def useLine (mnemonic name : String) : List Char := (mnemonic ++ " " ++ name).toList

/-- The lines that push and pop a variable. -/
def useLines (name : String) : List (List Char) := [useLine "pushv" name, useLine "pop" name]

/-- The instructions that push and pop a local. -/
def useElements (k : Nat) : List Element :=
  useLocal "pushv" ⟨.pushVariable, [.variable]⟩ k ++ useLocal "pop" ⟨.popVariable, [.variable]⟩ k

theorem closed_useLine {mnemonic name : String} (hmnemonic : isName mnemonic = true)
    (h : isName name = true) :
    Closed (useLine mnemonic name ++ ['\n']) [(.word, mnemonic), (.word, name)] := by
  have hwords := (open_name hmnemonic).append isSeparator_space (open_spaced (open_name h))
  simpa [useLine] using hwords.append_closed isSeparator_newline closed_newline

theorem closed_useLines {name : String} (h : isName name = true) :
    Closed ((useLines name).flatMap (· ++ ['\n']))
      [(.word, "pushv"), (.word, name), (.word, "pop"), (.word, name)] := by
  have hpush := closed_useLine (show isName "pushv" = true by decide) h
  have hpop := closed_useLine (show isName "pop" = true by decide) h
  simpa [useLines] using hpush.append hpop

theorem not_isUnresolved_useElements (k : Nat) : ∀ e ∈ useElements k, ¬IsUnresolved e := by
  rintro e he ⟨id, rfl⟩
  simp [useElements, useLocal] at he

section

variable {name : String} {x : Load Program} (h : Resumes more p x r)
  (hmore : more.map Token.lexeme =
    [(.word, "pushv"), (.word, name), (.word, "pop"), (.word, name), (.endOfInput, "")])
include h hmore

theorem Resumes.use {k : Nat} (hname : name ≠ "segment") (hk : p.localIndex? name = some k)
    (hscalar : p.locals[k]?.bind (·.arrayLength) = none) :
    ∃ r', x r = .ok { p with code := p.code.extend (useElements k) } r' := by
  obtain ⟨n, q, r₁, p₀, d, hx, ⟨m, n', r₂, hsegments, hr₂, hm⟩, r₀, r₀', hcomplete⟩ := h
  have hlength : more.length = 5 := by simpa using congrArg List.length hmore
  obtain ⟨m, rfl⟩ := Nat.exists_eq_add_of_le' (show 2 ≤ m by omega)
  obtain ⟨s, rfl, hextended⟩ := complete_extend (not_isUnresolved_useElements k) hcomplete
  have hlexemes : r₂.lexemes = more.map Token.lexeme := congrArg (List.map Token.lexeme) hr₂
  obtain ⟨r₃, hpush, hr₃⟩ := items_useLocal (p := p₀) (d := d) hname hk hscalar rfl
    (hlexemes.trans hmore)
    (show Mnemonic.operation? "pushv" = some ⟨.pushVariable, _⟩ by decide +kernel) (m + 1)
  obtain ⟨r₄, hpop, hr₄⟩ := items_useLocal (p := p₀) (d := d.extend _) hname hk hscalar rfl hr₃
    (show Mnemonic.operation? "pop" = some ⟨.popVariable, _⟩ by decide +kernel) m
  obtain ⟨last, _, hts, hlast, hnil⟩ := List.map_eq_cons_iff.mp hr₄
  obtain rfl := List.map_eq_nil_iff.mp hnil
  have hend := (kind_of_lexeme hlast).1
  obtain ⟨r₅, hr₅, hcompleted⟩ := hextended r₄
  have hitems : items (m + 2) p₀ d r₂ = .ok (d.extend (useElements k)) r₄ := by
    rw [hpush, hpop, Draft.extend_extend]
    exact items_atEnd hts (by rw [hlast]; rfl) m p₀ _
  have hrest : segments n 0 q r₁ = .ok (p₀.setSegment .code (s.extend (useElements k))) r₅ := by
    rw [hsegments, bind_assoc, bind_eq hitems, bind_eq hcompleted]
    exact segments_atEnd (hr₅.trans hts) hend n' 3 _
  exact ⟨_, hx.trans (bind_eq hrest)⟩

/-- A local that is called like the word for a segment cannot be pushed. -/
theorem Resumes.use_segment (hname : name = "segment") :
    ∃ e r', x r = .error e r' ∧ e.cause = .missingOperand "pushv" "variable" := by
  subst hname
  obtain ⟨n, q, r₁, p₀, d, hx, ⟨m, n', r₂, hsegments, hr₂, hm⟩, -⟩ := h
  have hlength : more.length = 5 := by simpa using congrArg List.length hmore
  obtain ⟨m, rfl⟩ := Nat.exists_eq_add_of_le' (show 1 ≤ m by omega)
  have hlexemes : r₂.lexemes = more.map Token.lexeme := congrArg (List.map Token.lexeme) hr₂
  obtain ⟨e, r₃, hitems, he⟩ := items_useSegment (p := p₀) (d := d) (hlexemes.trans hmore)
    (show Mnemonic.operation? "pushv" = some ⟨.pushVariable, .variable :: []⟩ by decide +kernel) m
  have hrest : segments n 0 q r₁ = .error e r₃ := by
    rw [hsegments, bind_assoc]
    exact bind_eq_error hitems
  exact ⟨e, r₃, hx.trans (bind_eq_error hrest), he⟩

end

end Loader

namespace Program

variable {text : List Char} {p : Program} {body : List Lexeme} {k : Nat} {d : Declaration}

/-- Of a text whose last segment is Code every scalar local can be pushed and popped at the end,
but for a local that is called like the word for a segment. -/
theorem load_appendLines_useLines (h : (load text).1 = .ok p)
    (hcode : Loader.EndsInCode body (lexemes (unifyLineEndings text).1))
    (hd : p.locals[k]? = some d) (hscalar : d.arrayLength = none) :
    (d.name ≠ "segment" → (load (appendLines text (Loader.useLines d.name))).1 =
      .ok { p with code := p.code.extend (Loader.useElements k) }) ∧
    (d.name = "segment" → ∃ e, (load (appendLines text (Loader.useLines d.name))).1 = .error e ∧
      e.cause = .missingOperand "pushv" "variable") := by
  obtain ⟨hread, hclean⟩ := readFrom_of_load h
  obtain ⟨t, ht, htext⟩ := (hread.locals d (Array.mem_of_getElem? hd)).name
  have hname : isName d.name = true := by
    obtain ⟨hkind, hsame⟩ := Loader.kind_of_lexeme htext
    rw [← hsame]
    exact (token_of_mem_scanFrom 0 _ t ht).1 hkind
  obtain ⟨more, hmore, hclean', hgoes⟩ :=
    goesOn_appendLines hclean (Loader.closed_useLines hname)
  have hword : ∃ t ts, more = t :: ts ∧ t.kind = .word := by
    obtain ⟨t, ts, hts, ht, -⟩ := List.map_eq_cons_iff.mp hmore
    exact ⟨t, ts, hts, (Loader.kind_of_lexeme ht).1⟩
  have hlocals : p.locals ≠ #[] := by
    intro hempty
    rw [hempty] at hd
    cases hd
  obtain ⟨r, hprogram⟩ := exists_program_of_load hclean h
  have hresumes : Loader.Resumes more p Loader.program
      (Loader.start (appendLines text (Loader.useLines d.name))) :=
    Loader.program_resumes (r := Loader.start text) hgoes hword hlocals hcode
      (fun t ht hkind => restOfLine_appendLines hclean ht hkind) hprogram
  have hk := Loader.localIndex?_eq_some (wellFormed_of_load h).names hd
  rw [load_of_clean hclean']
  refine ⟨fun hne => ?_, fun hsegment => ?_⟩
  · obtain ⟨r', hr'⟩ := hresumes.use hmore hne hk (by rw [hd]; exact hscalar)
    rw [hr']
  · obtain ⟨e, r', hr', he⟩ := hresumes.use_segment hmore hsegment
    rw [hr']
    exact ⟨e, rfl, he⟩

/-- A local that hides a variable of the graphics state, and one that cannot be used. -/
theorem load_appendLines_useLines_hiding :
    let text := ("surface\nAQSIS_V 1.0\nUSES 0\nsegment Data\nuniform float Ci\n" ++
      "varying point segment\nsegment Code\n:1\njmp 1").toList
    let body := [(.colon, ":"), (.number, "1"), (.word, "jmp"), (.number, "1"), (.endOfInput, "")]
    ∃ p, (load text).1 = .ok p ∧
      Loader.EndsInCode body (lexemes (unifyLineEndings text).1) ∧
      p.locals[0]? = some ⟨"Ci", .float, .uniform, false, false, none⟩ ∧
      p.locals[1]? = some ⟨"segment", .point, .varying, false, false, none⟩ ∧
      (load (appendLines text (Loader.useLines "Ci"))).1 =
        .ok { p with code := p.code.extend (Loader.useElements 0) } ∧
      ∃ e, (load (appendLines text (Loader.useLines "segment"))).1 = .error e ∧
        e.cause = .missingOperand "pushv" "variable" := by
  intro text body
  have hcode : Loader.EndsInCode body (lexemes (unifyLineEndings text).1) :=
    ⟨⟨(lexemes (unifyLineEndings text).1).take 13, by decide +kernel⟩, by decide⟩
  have hlocals : (load text).1.toOption.map (·.locals) =
      some #[⟨"Ci", .float, .uniform, false, false, none⟩,
        ⟨"segment", .point, .varying, false, false, none⟩] := by
    decide +kernel
  cases hp : (load text).1 with
  | error e =>
    rw [hp] at hlocals
    cases hlocals
  | ok p =>
    rw [hp] at hlocals
    have hlocals : p.locals = _ := Option.some.inj hlocals
    have hfirst : p.locals[0]? = some ⟨"Ci", .float, .uniform, false, false, none⟩ := by
      rw [hlocals]
      rfl
    have hsecond : p.locals[1]? = some ⟨"segment", .point, .varying, false, false, none⟩ := by
      rw [hlocals]
      rfl
    exact ⟨p, rfl, hcode, hfirst, hsecond,
      (load_appendLines_useLines hp hcode hfirst rfl).1 (by decide),
      (load_appendLines_useLines hp hcode hsecond rfl).2 rfl⟩

/-- What is declared as `segment` is a scalar like any other, and no text can push it. -/
theorem not_load_appendLines_segment :
    let text := ("surface\nAQSIS_V 1.0\nUSES 0\nsegment Data\nuniform float segment\n" ++
      "segment Code\n").toList
    ∃ p, (load text).1 = .ok p ∧
      Loader.EndsInCode [(.endOfInput, "")] (lexemes (unifyLineEndings text).1) ∧
      p.locals[0]? = some ⟨"segment", .float, .uniform, false, false, none⟩ ∧
      ∀ q, (load (appendLines text (Loader.useLines "segment"))).1 ≠ .ok q := by
  intro text
  have hcode : Loader.EndsInCode [(.endOfInput, "")] (lexemes (unifyLineEndings text).1) :=
    ⟨⟨(lexemes (unifyLineEndings text).1).take 10, by decide +kernel⟩, by decide⟩
  have hlocal : (load text).1.toOption.bind (·.locals[0]?) =
      some ⟨"segment", .float, .uniform, false, false, none⟩ := by
    decide +kernel
  have hfails : (load (appendLines text (Loader.useLines "segment"))).1.toOption.isSome = false := by
    decide +kernel
  cases hp : (load text).1 with
  | error e =>
    rw [hp] at hlocal
    cases hlocal
  | ok p =>
    rw [hp] at hlocal
    refine ⟨p, rfl, hcode, hlocal, fun q hq => ?_⟩
    rw [hq] at hfails
    cases hfails

end Program

end ShadingMachine
