import ShadingMachine.Proofs.Loading.Carries

/-! The last segment of a text that goes on. The instructions that the text goes on with belong to
this segment: they are read where the shorter text ends. -/
namespace ShadingMachine.Loader

open Text

variable {more : List Token} {r r' r₁ : Reading} {t : Token} {ts : List Token} {p q : Program}
  {d d₁ : Draft} {start : List Token}

/-! The items of a segment -/

theorem items_atEnd (hr : r.tokens = t :: ts) (hend : endsSegment t.lexeme = true) (n : Nat)
    (p : Program) (d : Draft) : items n p d r = .ok d r := by
  cases n with
  | zero => rfl
  | succ n =>
    unfold items
    rw [bind_eq (atSegmentEnd_eq hr), hend]
    rfl

/-- What is read behind the first token of an item. -/
def item (p : Program) (d : Draft) (t : Token) : Load Draft :=
  match t.kind with
  | .colon => labelDefinition d
  | .word => instruction p d t
  | _ => fail (.expectedToken "opcode or label") t

theorem items_token (hr : r.tokens = t :: ts) (hend : endsSegment t.lexeme = false) (n : Nat)
    (p : Program) (d : Draft) :
    items (n + 1) p d r = (item p d t >>= items n p) (r.next t ts) := by
  rw [items, bind_eq (atSegmentEnd_eq hr), hend]
  show (peek >>= _) r = _
  rw [bind_eq (peek_eq hr), bind_eq (skip_eq hr), item]
  cases t.kind <;> rfl

theorem carries_item (h : GoesOn more r.tokens r'.tokens) (p : Program) (d : Draft) (t : Token) :
    Carries more (item p d t) r r' := by
  unfold item
  split
  · exact carries_labelDefinition h d
  · exact carries_instruction h p d t
  · exact carries_fail _ t

theorem reads_item (hend : endsSegment t.lexeme = false)
    (hd : d.SpelledFrom p start (t :: r.tokens)) :
    Reads (item p d t) r fun d' r' => d'.SpelledFrom p start r'.tokens ∧ r'.After r := by
  unfold item
  split
  · rename_i hkind
    exact reads_labelDefinition hkind hd
  · rename_i hkind
    exact reads_instruction t hkind hend hd
  · exact reads_fail _ t

/-- Reading the items of the longer text comes to the place where those of the shorter end, with as
many rounds left as there are tokens more. -/
theorem items_carried (n : Nat) (h : GoesOn more r.tokens r'.tokens)
    (hd : d.SpelledFrom p start r.tokens) (hok : items n p d r = .ok d₁ r₁) :
    ∃ m r₁', items n p d r' = items m p d₁ r₁' ∧ GoesOn more r₁.tokens r₁'.tokens ∧
      n + r₁.tokens.length ≤ m + r.tokens.length := by
  induction n generalizing r r' d with
  | zero =>
    cases hok
    exact ⟨0, r', rfl, h, le_rfl⟩
  | succ n ih =>
    generalize hts : r.tokens = ts at h hd
    generalize hts' : r'.tokens = ts' at h
    cases h with
    | last ht =>
      rw [items_atEnd hts (by simp [endsSegment, Token.lexeme, ht])] at hok
      cases hok
      exact ⟨n + 1, r', rfl, by rw [hts, hts']; exact .last ht, by rw [hts]⟩
    | @cons t ts ts' ht h =>
      cases hend : endsSegment t.lexeme with
      | true =>
        rw [items_atEnd hts hend] at hok
        cases hok
        exact ⟨n + 1, r', rfl, by rw [hts, hts']; exact .cons ht h, by rw [hts]⟩
      | false =>
        rw [items_token hts hend] at hok
        obtain ⟨d₂, r₂, hd₂, hok⟩ := exists_of_bind hok
        have hgoes : GoesOn more (r.next t ts).tokens (r'.next t ts').tokens := h
        obtain ⟨r₂', hd₂', h₂⟩ := carries_item hgoes p d t d₂ r₂ hd₂
        obtain ⟨hspelled, hafter⟩ := reads_item (r := r.next t ts) hend hd d₂ r₂ hd₂
        obtain ⟨m, r₁', hitems, h₁, hm⟩ := ih h₂ hspelled hok
        refine ⟨m, r₁', ?_, h₁, ?_⟩
        · rw [items_token hts' hend, bind_eq hd₂', hitems]
        · -- The round that is used up pays for the first token.
          have hlength : r₂.tokens.length ≤ ts.length := hafter.tokens.length_le
          rw [List.length_cons]
          omega

/-- A segment is complete when all its items are read. -/
def complete (p : Program) (kind : SegmentKind) (d : Draft) : Load Program := do
  let s ← d.jumps.foldlM resolve d.segment
  note .debug s!"segment {kind.name}: {s.length} elements, {s.labels.length} labels"
  return p.setSegment kind s

theorem codeSegment_eq (p : Program) (kind : SegmentKind) (r : Reading) :
    codeSegment p kind r = (items r.tokens.length p ⟨.empty, []⟩ >>= complete p kind) r := rfl

theorem carries_complete (p : Program) (kind : SegmentKind) (d : Draft)
    (h : GoesOn more r.tokens r'.tokens) : Carries more (complete p kind d) r r' := by
  refine (carries_foldlM (fun jump s r r' h => carries_resolve h s jump) _ _ h).bind ?_
  intro s r₁ r₁' _ _ h₁
  exact (carries_note h₁ _ _).bind fun _ _ _ _ _ h₂ => carries_pure h₂ _

theorem reads_complete (p : Program) (kind : SegmentKind) (d : Draft) :
    Reads (complete p kind d) r fun _ r' => r'.tokens = r.tokens := by
  have hresolved : Reads (d.jumps.foldlM resolve d.segment) r fun _ r' => r' = r :=
    reads_foldlM (I := fun _ r' => r' = r) d.jumps rfl fun jump _ s r' hr' =>
      hr' ▸ reads_resolve s jump
  refine hresolved.bind fun s r₁ hr₁ => (reads_note _ _).bind fun _ r₂ hr₂ => reads_pure ?_
  rw [hr₂.2, hr₁]

/-- In the longer text a segment goes on where it ends in the shorter. -/
theorem codeSegment_carried {kind : SegmentKind} (h : GoesOn more r.tokens r'.tokens)
    (hmore : more ≠ []) (hok : codeSegment p kind r = .ok q r₁) :
    ∃ d m r₂ r₂', codeSegment p kind r' = (items m p d >>= complete p kind) r₂' ∧
      complete p kind d r₂ = .ok q r₁ ∧ GoesOn more r₂.tokens r₂'.tokens ∧
      r₁.tokens = r₂.tokens ∧ AtEnd r₂.tokens ∧ more.length ≤ m := by
  have hlength := h.length_le hmore
  rw [codeSegment_eq] at hok
  obtain ⟨d, r₂, hd, hq⟩ := exists_of_bind hok
  have hempty : Draft.SpelledFrom p r.tokens ⟨.empty, []⟩ r.tokens := ⟨[], rfl, .nil⟩
  obtain ⟨-, hend⟩ := reads_items le_rfl hempty d r₂ hd
  rw [← (endsWithin hlength).items] at hd
  obtain ⟨m, r₂', hitems, h₂, hm⟩ := items_carried _ h hempty hd
  refine ⟨d, m, r₂, r₂', ?_, hq, h₂, reads_complete p kind d q r₁ hq, hend, ?_⟩
  · rw [codeSegment_eq]
    simp only [Bind.bind, EStateM.bind, hitems]
  · have hlonger := h.length_add
    have hpos := List.length_pos_iff.mpr h₂.ne_nil
    omega

/-! The segments of a text -/

/-- The last word for a segment stands before `Code`, with `body` behind it. -/
structure EndsInCode (body ls : List Lexeme) : Prop where
  header : ∃ before, ls = before ++ (.word, "segment") :: (.word, "Code") :: body
  last : (.word, "segment") ∉ body

namespace EndsInCode

variable {body ls used : List Lexeme} {l : Lexeme}

theorem uncons (h : EndsInCode body (l :: ls)) :
    l = (.word, "segment") ∧ ls = (.word, "Code") :: body ∨ EndsInCode body ls := by
  obtain ⟨before, hls⟩ := h.header
  cases before with
  | nil =>
    obtain ⟨rfl, rfl⟩ := List.cons.inj hls
    exact .inl ⟨rfl, rfl⟩
  | cons l' before =>
    obtain ⟨-, rfl⟩ := List.cons.inj hls
    exact .inr ⟨⟨before, rfl⟩, h.last⟩

theorem tail (h : EndsInCode body (l :: ls)) (hl : l ≠ (.word, "segment")) :
    EndsInCode body ls :=
  h.uncons.resolve_left fun hfirst => hl hfirst.1

theorem of_append (h : EndsInCode body (used ++ ls)) (hused : (.word, "segment") ∉ used) :
    EndsInCode body ls := by
  induction used with
  | nil => exact h
  | cons l used ih =>
    rw [List.mem_cons, not_or] at hused
    exact ih (h.tail (Ne.symm hused.1)) hused.2

theorem of_suffix {rest : List Lexeme} (h : EndsInCode body ls) (hsuffix : rest <:+ ls) :
    EndsInCode body rest ∨ (.word, "segment") ∉ rest := by
  obtain ⟨used, rfl⟩ := hsuffix
  induction used with
  | nil => exact .inl h
  | cons l used ih =>
    rcases h.uncons with ⟨-, hcode⟩ | h
    · refine .inr fun hmem => ?_
      have hmem : (.word, "segment") ∈ (.word, "Code") :: body := by
        rw [← hcode]
        exact List.mem_append_right _ hmem
      exact h.last (List.mem_of_ne_of_mem (by decide) hmem)
    · exact ih h

theorem length_le (h : EndsInCode body ls) : 2 ≤ ls.length := by
  obtain ⟨before, rfl⟩ := h.header
  simp only [List.length_append, List.length_cons]
  omega

end EndsInCode

variable {body : List Lexeme}

section

variable (hr : EndsInCode body r.lexemes)
include hr

theorem EndsInCode.next (hts : r.tokens = t :: ts) :
    EndsInCode body (r.next t ts).lexemes ∨
      t.text = "segment" ∧ (r.next t ts).lexemes = (.word, "Code") :: body := by
  rw [Reading.lexemes, hts, List.map_cons] at hr
  exact hr.uncons.symm.imp id fun h => ⟨(kind_of_lexeme h.1).2, h.2⟩

/-- The flags of a declaration are not the word for a segment. -/
theorem reads_flags_endsInCode (n : Nat) (param output : Bool) :
    Reads (flags n param output) r fun found r' =>
      EndsInCode body r'.lexemes ∨ found.2.2.text = "segment" := by
  induction n generalizing r param output with
  | zero =>
    refine (reads_expect (by decide) _).bind fun t r₁ ht => reads_pure ?_
    obtain ⟨-, ts, hts, rfl⟩ := ht
    exact (hr.next hts).imp id And.left
  | succ n ih =>
    refine (reads_expect (by decide) _).bind fun t r₁ ht => ?_
    obtain ⟨-, ts, hts, rfl⟩ := ht
    have hnext (htext : t.text ≠ "segment") := (hr.next hts).resolve_right fun h => htext h.1
    split
    · rename_i htext
      exact ih (hnext (by rw [htext]; decide)) true output
    · split
      · rename_i htext
        exact ih (hnext (by rw [htext]; decide)) param true
      · exact reads_pure ((hr.next hts).imp id And.left)

theorem reads_arrayLength_endsInCode :
    Reads arrayLength r fun _ r' => EndsInCode body r'.lexemes := by
  have hskip {kind : TokenKind} (hkind : kind ≠ .word) {r : Reading} {t : Token} {ts : List Token}
      (hr : EndsInCode body r.lexemes) (hts : r.tokens = t :: ts) (ht : t.kind = kind) :
      EndsInCode body (r.next t ts).lexemes := by
    rw [Reading.lexemes, hts, List.map_cons] at hr
    exact hr.tail fun h => hkind (ht.symm.trans (kind_of_lexeme h).1)
  refine reads_peek.bind fun t r₁ ht => ?_
  obtain ⟨rfl, ht⟩ := ht
  split
  · rename_i hbracket
    rcases ht with ⟨ts, hts⟩ | ⟨-, hend⟩
    · have hr := hskip (by decide) hr hts hbracket
      refine (reads_skip hts).bind fun _ r₂ hr₂ => ?_
      subst hr₂
      refine (reads_expect (by decide) _).bind fun t₃ r₃ ht₃ => ?_
      obtain ⟨hkind₃, ts₃, hts₃, rfl⟩ := ht₃
      have hr := hskip (by decide) hr hts₃ hkind₃
      split
      · refine (reads_expect (by decide) _).bind fun t₄ r₄ ht₄ => reads_pure ?_
        obtain ⟨hkind₄, ts₄, hts₄, rfl⟩ := ht₄
        exact hskip (by decide) hr hts₄ hkind₄
      · exact reads_fail _ _
    · rw [hend] at hbracket
      cases hbracket
  · exact reads_pure hr

/-- Only as its name may a declaration take the word for the last segment. -/
theorem reads_declaration_endsInCode (p : Program) :
    Reads (declaration p) r fun _ r' =>
      EndsInCode body r'.lexemes ∨ r'.lexemes = (.word, "Code") :: body := by
  refine (reads_get (Q := fun a r' => a = r ∧ r' = r) ⟨rfl, rfl⟩).bind fun r₁ r₂ hr₁ => ?_
  obtain ⟨rfl, rfl⟩ := hr₁
  refine (reads_flags_endsInCode hr _ _ _).bind fun found r₃ hr₃ => ?_
  obtain ⟨param, output, t⟩ := found
  dsimp only at hr₃ ⊢
  split
  · exact reads_fail _ _
  · rename_i detail hdetail
    have hr₃ := hr₃.resolve_right fun htext => by
      rw [htext] at hdetail
      cases hdetail
    refine (reads_expect (by decide) _).bind fun t₄ r₄ ht₄ => ?_
    obtain ⟨-, ts₄, hts₄, rfl⟩ := ht₄
    split
    · exact reads_failWith _ _ _
    · rename_i type htype
      have hr₄ := (hr₃.next hts₄).resolve_right fun h => by
        rw [h.1] at htype
        cases htype
      refine (reads_expect (by decide) _).bind fun t₅ r₅ ht₅ => reads_unless fun _ => ?_
      obtain ⟨-, ts₅, hts₅, rfl⟩ := ht₅
      rcases hr₄.next hts₅ with hr₅ | ⟨-, hr₅⟩
      · exact (reads_arrayLength_endsInCode hr₅).bind fun _ _ hr₆ => reads_pure (.inl hr₆)
      · obtain ⟨t₆, ts₆, hts₆, ht₆, -⟩ := List.map_eq_cons_iff.mp hr₅
        have hbracket : t₆.kind ≠ .leftBracket := by
          rw [(kind_of_lexeme ht₆).1]
          decide
        intro d r₆ hd
        rw [bind_eq (arrayLength_eq_none hts₆ hbracket)] at hd
        cases hd
        exact .inr hr₅

omit hr in
/-- The name of a segment begins no declaration. -/
theorem reads_declarations_code {ls : List Lexeme} (hr : r.lexemes = (.word, "Code") :: ls)
    {n : Nat} (hn : r.tokens.length ≤ n) (p : Program) :
    Reads (declarations n p) r fun _ _ => False := by
  obtain ⟨t, ts, hts, ht, -⟩ := List.map_eq_cons_iff.mp hr
  have hexpect : Reads (expect .word "declaration") r fun t' _ => t'.text = "Code" := by
    refine (reads_expect (by decide) _).imp fun t' r₁ ht' => ?_
    obtain ⟨-, ts', hts', -⟩ := ht'
    obtain ⟨rfl, -⟩ := List.cons.inj (hts.symm.trans hts')
    exact (kind_of_lexeme ht).2
  have hflags (n : Nat) : Reads (flags n false false) r fun found _ => found.2.2.text = "Code" := by
    cases n with
    | zero => exact hexpect.bind fun t' _ ht' => reads_pure ht'
    | succ n =>
      refine hexpect.bind fun t' _ ht' => ?_
      rw [if_neg (by rw [ht']; decide), if_neg (by rw [ht']; decide)]
      exact reads_pure ht'
  have hdeclaration : Reads (declaration p) r fun _ _ => False := by
    refine (reads_get (Q := fun a r' => a = r ∧ r' = r) ⟨rfl, rfl⟩).bind fun r₁ r₂ hr₁ => ?_
    obtain ⟨rfl, rfl⟩ := hr₁
    refine (hflags _).bind fun found r₃ hfound => ?_
    obtain ⟨param, output, t'⟩ := found
    dsimp only at hfound ⊢
    rw [hfound]
    exact reads_fail _ _
  cases n with
  | zero =>
    rw [tokens_eq_nil hn] at hts
    cases hts
  | succ n =>
    unfold declarations
    intro q r₁ hq
    rw [bind_eq (atSegmentEnd_eq hts), ht] at hq
    obtain ⟨d, r₂, hd, -⟩ := exists_of_bind hq
    exact hdeclaration d r₂ hd

theorem reads_declarations_endsInCode {n : Nat} (hn : r.tokens.length ≤ n) (p : Program) :
    Reads (declarations n p) r fun _ r' => EndsInCode body r'.lexemes := by
  induction n generalizing r p with
  | zero =>
    have hlength := hr.length_le
    rw [Reading.lexemes, tokens_eq_nil hn] at hlength
    cases hlength
  | succ n ih =>
    refine reads_atSegmentEnd.bind fun atEnd r₁ hend => ?_
    obtain ⟨rfl, -⟩ := hend
    split
    · exact reads_pure hr
    · have hboth : Reads (declaration p) r₁ fun _ r' => r'.tokens.length ≤ n ∧
          (EndsInCode body r'.lexemes ∨ r'.lexemes = (.word, "Code") :: body) := by
        intro d r' hd
        have hlength := reads_declaration_shorter p d r' hd
        exact ⟨by omega, reads_declaration_endsInCode hr p d r' hd⟩
      refine hboth.bind fun d r₂ hr₂ => (reads_note _ _).bind fun _ r₃ hr₃ => ?_
      have hsame : r₃.lexemes = r₂.lexemes := congrArg (List.map Token.lexeme) hr₃.2
      rw [← hr₃.2, ← hsame] at hr₂
      obtain ⟨hlength, hnext | hcode⟩ := hr₂
      · exact ih hnext hlength _
      · exact (reads_declarations_code hcode hlength _).imp fun _ _ h => h.elim

/-- A segment of instructions ends at the word for the next. -/
theorem reads_codeSegment_endsInCode (p : Program) (kind : SegmentKind) :
    Reads (codeSegment p kind) r fun _ r' => EndsInCode body r'.lexemes := by
  refine (reads_codeSegment p kind).imp fun q r₁ hq => ?_
  obtain ⟨s, used, -, hused, -, hspells⟩ := hq
  rw [Reading.lexemes, hused, List.map_append] at hr
  refine hr.of_append fun hmem => ?_
  obtain ⟨t, ht, hlexeme⟩ := List.mem_map.mp hmem
  have hends := hspells.endsSegment_eq_false t ht
  rw [hlexeme] at hends
  cases hends

end

/-! One segment after the other -/

/-- What is read of the segment of number `k` behind its name. -/
def segmentBody (k : Nat) (p : Program) : Load Program :=
  match k with
  | 0 => do declarations (← get).tokens.length p
  | 1 => codeSegment p .init
  | _ => codeSegment p .code

/-- The place behind the header of the segment of number `k`. -/
structure BehindHeader (k : Nat) (r r' : Reading) (word name : Token) : Prop where
  tokens : r.tokens = word :: name :: r'.tokens
  keyword : word.lexeme = (.word, "segment")
  isWord : name.kind = .word
  number : segmentNames.findIdx? (· == name.text) = some k
  place : r' = { r with tokens := r'.tokens, lastEnd := name.span.stop }

theorem BehindHeader.segments_eq {k next : Nat} {word name : Token}
    (h : BehindHeader k r r' word name) (hk : next ≤ k) (n : Nat) (p : Program) :
    segments (n + 1) next p r = (segmentBody k p >>= segments n (k + 1)) r' := by
  obtain ⟨hword, htext⟩ := kind_of_lexeme h.keyword
  have hkeyword := expectKeyword_eq h.tokens hword
  rw [htext] at hkeyword
  have hname := expect_eq (r := { r with tokens := name :: r'.tokens, lastEnd := word.span.stop })
    rfl "segment name"
  rw [h.isWord] at hname
  rw [segments, bind_eq (peek_eq h.tokens), if_neg (by rw [hword]; decide), bind_eq hkeyword,
    bind_eq hname, h.number]
  dsimp only
  rw [if_neg (Nat.not_lt.mpr hk), ← h.place]
  match k with
  | 0 => rfl
  | 1 => rfl
  | k + 2 => rfl

/-- The header of a segment is in both texts. -/
theorem BehindHeader.carried {k : Nat} {word name : Token} (hr : BehindHeader k r r₁ word name)
    (h : GoesOn more r.tokens r'.tokens) :
    ∃ r₁', BehindHeader k r' r₁' word name ∧ GoesOn more r₁.tokens r₁'.tokens := by
  obtain ⟨ts, hts, h₁⟩ := exists_same_token h hr.tokens (by rw [(kind_of_lexeme hr.keyword).1]; decide)
  obtain ⟨ts', rfl, h₂⟩ := h₁.uncons (by rw [hr.isWord]; decide)
  exact ⟨⟨_, ts', _, _⟩, ⟨hts, hr.keyword, hr.isWord, hr.number, rfl⟩, h₂⟩

/-- Either nothing is left, or another segment is read. -/
theorem reads_segments_succ (n next : Nat) (p : Program) : Reads (segments (n + 1) next p) r
    fun q r₁ => (∀ t ∈ r.tokens.head?, t.kind = .endOfInput) ∧ q = p ∧ r₁ = r ∨
      ∃ k r' word name, BehindHeader k r r' word name ∧ next ≤ k ∧
        (segmentBody k p >>= segments n (k + 1)) r' = .ok q r₁ := by
  refine reads_peek.bind fun t r₁ ht => ?_
  obtain ⟨rfl, ht⟩ := ht
  split
  · rename_i hend
    refine reads_pure (.inl ⟨fun t' ht' => ?_, rfl, rfl⟩)
    rcases ht with ⟨ts, hts⟩ | ⟨hnil, -⟩
    · rw [hts] at ht'
      cases ht'
      exact hend
    · rw [hnil] at ht'
      cases ht'
  · refine (reads_expectKeyword _).bind fun _ r₂ hr₂ => ?_
    obtain ⟨word, ts₂, hword, hts₂, rfl⟩ := hr₂
    refine (reads_expect (by decide) _).bind fun name r₃ hr₃ => ?_
    obtain ⟨hname, ts₃, hts₃, rfl⟩ := hr₃
    split
    · exact reads_failWith _ _ _
    · rename_i k hk
      refine reads_unless fun hle q r₄ hq => .inr ⟨k, (r₁.next word ts₂).next name ts₃, word, name,
        ⟨?_, hword, hname, hk, rfl⟩, Nat.le_of_not_lt hle, ?_⟩
      · rw [hts₂, show ts₂ = name :: ts₃ from hts₃]
        rfl
      · match k, hq with
        | 0, hq => exact hq
        | 1, hq => exact hq
        | k + 2, hq => exact hq

theorem reads_segmentBody (k : Nat) (p : Program) (hr : EndsInCode body r.lexemes) :
    Reads (segmentBody k p) r fun _ r' =>
      EndsInCode body r'.lexemes ∧ r'.tokens.length ≤ r.tokens.length := by
  match k with
  | 0 =>
    refine (reads_get (Q := fun a r' => a = r ∧ r' = r) ⟨rfl, rfl⟩).bind fun r₁ r₂ hr₁ => ?_
    obtain ⟨rfl, rfl⟩ := hr₁
    exact fun q r' hq => ⟨reads_declarations_endsInCode hr le_rfl p q r' hq,
      reads_declarations_after _ p q r' hq⟩
  | 1 => exact fun q r' hq => ⟨reads_codeSegment_endsInCode hr p .init q r' hq,
      reads_codeSegment_after p .init q r' hq⟩
  | k + 2 => exact fun q r' hq => ⟨reads_codeSegment_endsInCode hr p .code q r' hq,
      reads_codeSegment_after p .code q r' hq⟩

/-- A segment of instructions that does not end with the shorter text. -/
theorem codeSegment_carried_within {kind : SegmentKind} (h : GoesOn more r.tokens r'.tokens)
    (hmore : more ≠ []) (hok : codeSegment p kind r = .ok q r₁)
    (hgoes : ∀ t, r₁.tokens = [t] → t.kind ≠ .endOfInput) :
    ∃ r₁', codeSegment p kind r' = .ok q r₁' ∧ GoesOn more r₁.tokens r₁'.tokens := by
  obtain ⟨d, m, r₂, r₂', hcode, hq, h₂, htokens, hend, -⟩ := codeSegment_carried h hmore hok
  have hitems : items m p d r₂' = .ok d r₂' := by
    generalize hts : r₂.tokens = ts at h₂
    generalize hts' : r₂'.tokens = ts' at h₂
    cases h₂ with
    | last ht => exact absurd ht (hgoes _ (htokens.trans hts))
    | cons _ _ => exact items_atEnd hts' (hend _ (by rw [hts]; rfl)) m p d
  obtain ⟨r₁', hq', h₁⟩ := carries_complete p kind d h₂ q r₁ hq
  exact ⟨r₁', hcode.trans ((bind_eq hitems).trans hq'), h₁⟩

theorem segmentBody_carried (k : Nat) (h : GoesOn more r.tokens r'.tokens)
    (hmore : ∃ t ts, more = t :: ts ∧ t.kind = .word) (hok : segmentBody k p r = .ok q r₁)
    (hgoes : ∀ t, r₁.tokens = [t] → t.kind ≠ .endOfInput) :
    ∃ r₁', segmentBody k p r' = .ok q r₁' ∧ GoesOn more r₁.tokens r₁'.tokens := by
  have hne := ne_nil_of_word hmore
  match k with
  | 0 =>
    have hok : declarations r.tokens.length p r = .ok q r₁ := hok
    rw [← (endsWithin (h.length_le hne)).declarations] at hok
    exact carries_declarations h hmore _ p q r₁ hok hgoes
  | 1 => exact codeSegment_carried_within h hne hok hgoes
  | k + 2 => exact codeSegment_carried_within h hne hok hgoes

/-- Reading the longer text comes to where the shorter ends: in the segment of instructions to run,
of which `d` has been read, and `q` is the program if nothing more is. -/
structure ComesTo (more : List Token) (p q : Program) (d : Draft) (x : Load Program)
    (r : Reading) : Prop where
  place : ∃ m n r', x r = ((items m p d >>= complete p .code) >>= segments n 3) r' ∧
    r'.tokens = more ∧ more.length ≤ m
  completes : ∃ r₀ r₁, complete p .code d r₀ = .ok q r₁

theorem ComesTo.of_eq {x y : Load Program} (h : ComesTo more p q d x r) (heq : y r' = x r) :
    ComesTo more p q d y r' := by
  obtain ⟨m, n, r₀, hx, hr₀⟩ := h.place
  exact ⟨⟨m, n, r₀, heq.trans hx, hr₀⟩, h.completes⟩

theorem segments_atEnd (hr : r.tokens = [t]) (ht : t.kind = .endOfInput) (n next : Nat)
    (p : Program) : segments n next p r = .ok p r := by
  cases n with
  | zero => rfl
  | succ n =>
    rw [segments, bind_eq (peek_eq hr), if_pos ht]
    rfl

/-- A segment without the word for another ends with the text, and the longer text goes on there. -/
theorem comesTo_codeSegment {n : Nat} (h : GoesOn more r.tokens r'.tokens) (hmore : more ≠ [])
    (hbody : (.word, "segment") ∉ r.lexemes)
    (hok : (codeSegment p .code >>= segments n 3) r = .ok q r₁) :
    ∃ d, ComesTo more p q d (codeSegment p .code >>= segments n 3) r' := by
  obtain ⟨p₁, r₂, hcode, hq⟩ := exists_of_bind hok
  obtain ⟨s, used, -, hused, -⟩ := reads_codeSegment p .code p₁ r₂ hcode
  obtain ⟨d, m, r₃, r₃', hcode', hcomplete, h₃, htokens, hend, hm⟩ :=
    codeSegment_carried h hmore hcode
  have hlast : r₃'.tokens = more ∧ ∃ t, r₂.tokens = [t] ∧ t.kind = .endOfInput := by
    generalize hts : r₃.tokens = ts at h₃
    generalize hts' : r₃'.tokens = ts' at h₃
    cases h₃ with
    | last ht => exact ⟨rfl, _, htokens.trans hts, ht⟩
    | @cons t ts ts' ht _ =>
      -- The segment would end at the word for another.
      have hword := hend t (by rw [hts]; rfl)
      simp only [endsSegment, Bool.or_eq_true, beq_iff_eq] at hword
      have hlexeme := hword.resolve_left ht
      refine absurd (List.mem_map.mpr ⟨t, ?_, hlexeme⟩) hbody
      rw [hused, htokens, hts]
      simp
  obtain ⟨hplace, t, ht, hkind⟩ := hlast
  rw [segments_atEnd ht hkind] at hq
  cases hq
  refine ⟨d, ⟨m, n, r₃', ?_, hplace, hm⟩, r₃, r₁, hcomplete⟩
  simp only [Bind.bind, EStateM.bind] at hcode' ⊢
  rw [hcode']

/-- A text whose last segment is still to come is not at its end. -/
theorem EndsInCode.not_atEnd (hr : EndsInCode body r.lexemes) (h : GoesOn more r.tokens r'.tokens) :
    ¬∀ t ∈ r.tokens.head?, t.kind = .endOfInput := by
  intro hend
  have hlength := hr.length_le
  rw [Reading.lexemes, List.length_map] at hlength
  generalize r.tokens = ts at h hend hlength
  generalize r'.tokens = ts' at h
  cases h with
  | last => cases Nat.le_of_succ_le_succ hlength
  | cons ht _ => exact ht (hend _ rfl)

/-- Segment by segment the longer text is read like the shorter, until in the last it goes on. -/
theorem segments_carried {n next : Nat} (h : GoesOn more r.tokens r'.tokens)
    (hmore : ∃ t ts, more = t :: ts ∧ t.kind = .word) (hn : r.tokens.length ≤ n)
    (hr : EndsInCode body r.lexemes) (hok : segments n next p r = .ok q r₁) :
    ∃ p₀ d, ComesTo more p₀ q d (segments n next p) r' := by
  induction n generalizing r r' next p with
  | zero =>
    have hlength := hr.length_le
    rw [Reading.lexemes, tokens_eq_nil hn] at hlength
    cases hlength
  | succ n ih =>
    rcases reads_segments_succ n next p q r₁ hok with ⟨hend, -, -⟩ | hheader
    · exact absurd hend (hr.not_atEnd h)
    · obtain ⟨k, r₂, word, name, hheader, hk, hok⟩ := hheader
      obtain ⟨r₂', hheader', h₂⟩ := hheader.carried h
      have hstep := hheader'.segments_eq hk n p
      rw [Reading.lexemes, hheader.tokens, List.map_cons, List.map_cons] at hr
      have hlength : r₂.tokens.length ≤ n := by
        rw [hheader.tokens, List.length_cons, List.length_cons] at hn
        omega
      rcases hr.uncons with ⟨-, hcode⟩ | hr
      · -- This is the last segment.
        obtain ⟨hname, hbody⟩ := List.cons.inj hcode
        have hk := hheader.number
        rw [(kind_of_lexeme hname).2] at hk
        obtain rfl : 2 = k := Option.some.inj hk
        have hlast : (.word, "segment") ∉ r₂.lexemes := by
          rw [Reading.lexemes, hbody]
          exact hr.last
        obtain ⟨d, hcomes⟩ := comesTo_codeSegment h₂ (ne_nil_of_word hmore) hlast hok
        exact ⟨p, d, hcomes.of_eq hstep⟩
      · -- There is another one behind it, so that it does not end with the text.
        have hr := hr.tail fun hname => by
          have hk := hheader.number
          rw [(kind_of_lexeme hname).2] at hk
          cases hk
        obtain ⟨p₁, r₃, hbody, hok⟩ := exists_of_bind hok
        obtain ⟨hr₃, hlength₃⟩ := reads_segmentBody k p hr p₁ r₃ hbody
        have hgoes (t : Token) (ht : r₃.tokens = [t]) : t.kind ≠ .endOfInput := by
          have hlength := hr₃.length_le
          rw [Reading.lexemes, ht] at hlength
          cases Nat.le_of_succ_le_succ hlength
        obtain ⟨r₃', hbody', h₃⟩ := segmentBody_carried k h₂ hmore hbody hgoes
        obtain ⟨p₀, d, hcomes⟩ := ih h₃ (hlength₃.trans hlength) hr₃ hok
        exact ⟨p₀, d, hcomes.of_eq (hstep.trans (bind_eq hbody'))⟩

end ShadingMachine.Loader
