import ShadingMachine.Proofs.Listing.Lexemes
import ShadingMachine.Proofs.Loading.Accepts
import ShadingMachine.Proofs.Number.Decimal

/-! Reading the header and the declarations of a listing. The version is the one place where it
matters where the tokens stand: those of its line are passed over. -/
namespace ShadingMachine.Loader

open Text

section Header

variable {r : Reading} {t : Token} {ts : List Token}

theorem peek_eq (h : r.tokens = t :: ts) : peek r = .ok t r := by
  have hpeek : peek r =
      .ok (r.tokens.headD ⟨.endOfInput, "", .point (byteSize r.source.text)⟩) r := rfl
  rw [hpeek, h]
  rfl

theorem expect_eq (h : r.tokens = t :: ts) (what : String) :
    expect t.kind what r = .ok t { r with tokens := ts, lastEnd := t.span.stop } := by
  unfold expect
  rw [bind_eq (peek_eq h), if_neg (by simp)]
  exact bind_eq (skip_eq h)

theorem expectKeyword_eq (h : r.tokens = t :: ts) (ht : t.kind = .word) :
    expectKeyword t.text r = .ok ⟨⟩ { r with tokens := ts, lastEnd := t.span.stop } := by
  unfold expectKeyword
  rw [bind_eq (peek_eq h), if_neg (by simp [ht])]
  exact skip_eq h

theorem trim_space (cs : List Char) : trim (' ' :: cs) = trim cs := by
  have hblank : isBlank ' ' = true := by decide
  simp [trim, hblank]

/-- The tokens of a line are told from those after it by where they stand. -/
theorem dropWhile_line {online after : List Token} {start stop : Nat}
    (honline : ∀ t ∈ online, t.Within start stop) (hafter : ∀ t ∈ after, stop ≤ t.span.start) :
    (online ++ after).dropWhile (fun t => t.kind != .endOfInput && t.span.start < stop) =
      after := by
  rw [List.dropWhile_append_of_pos fun t ht => by
    simp [(honline t ht).kind, (honline t ht).start_lt]]
  cases after with
  | nil => rfl
  | cons t ts => simp [hafter t List.mem_cons_self]

theorem version_eq {v : String} (hv : IsVersion v) {rest : List Char}
    (htext : dropBytes r.lastEnd r.source.text = ' ' :: v.toList ++ '\n' :: rest)
    {online after : List Token} (htokens : r.tokens = online ++ after) {start : Nat}
    (honline : ∀ t ∈ online, t.Within start (r.lastEnd + byteSize (' ' :: v.toList)))
    (hafter : ∀ t ∈ after, r.lastEnd + byteSize (' ' :: v.toList) ≤ t.span.start) :
    version r = .ok v { r with tokens := after } := by
  have hchars : ∀ c ∈ ' ' :: v.toList, c ≠ '\n' ∧ c ≠ '#' := by
    refine List.forall_mem_cons.mpr ⟨by decide, fun c hc => ?_⟩
    have hne := hv.ne hc
    exact ⟨hne.1, hne.2.2⟩
  have hline : (' ' :: v.toList ++ '\n' :: rest).takeWhile (· != '\n') = ' ' :: v.toList := by
    rw [List.takeWhile_append_of_pos fun c hc => bne_iff_ne.mpr (hchars c hc).1]
    simp
  have hcomment : (' ' :: v.toList).takeWhile (· != '#') = ' ' :: v.toList :=
    List.takeWhile_eq_self_iff.mpr fun c hc => bne_iff_ne.mpr (hchars c hc).2
  have hne : v.toList.isEmpty = false := by
    rw [← Bool.not_eq_true, List.isEmpty_iff]
    exact hv.nonempty
  have hdrop := dropWhile_line honline hafter
  rw [← htokens] at hdrop
  have hget : (get : Load Reading) r = .ok r r := rfl
  unfold version
  rw [bind_eq hget]
  simp only [htext, hline, hcomment, trim_space, hv.trimmed, hne, hdrop]
  rw [if_neg (by decide)]
  show EStateM.Result.ok _ _ = _
  rw [String.ofList_toList]

/-- What follows the version in the header. -/
theorem accepts_usesMask {bits : Nat} (h : bits < 0x100000000) {ls : List Lexeme} :
    Accepts usesMask ((.number, toString bits) :: ls) ls (· = ⟨bits⟩) := by
  refine (accepts_expect _ _ _).bind fun t ht => ?_
  rw [(kind_of_lexeme ht).2, Number.naturalBelow?_toString h]
  dsimp only
  split
  · exact (accepts_note _ _).bind fun _ _ => accepts_pure rfl
  · exact accepts_pure rfl

/-- A header that begins with two words, after which the version stands on its line. -/
theorem header_eq {kind : ShaderKind} {v : String} {bits : Nat} {ls : List Lexeme}
    (hv : IsVersion v) (hbits : bits < 0x100000000) {first second : Token}
    {online after : List Token} (htokens : r.tokens = first :: second :: (online ++ after))
    (hfirst : first.lexeme = (.word, kind.keyword)) (hsecond : second.lexeme = (.word, "AQSIS_V"))
    {rest : List Char}
    (htext : dropBytes second.span.stop r.source.text = ' ' :: v.toList ++ '\n' :: rest)
    {start : Nat}
    (honline : ∀ t ∈ online, t.Within start (second.span.stop + byteSize (' ' :: v.toList)))
    (hafter : ∀ t ∈ after, second.span.stop + byteSize (' ' :: v.toList) ≤ t.span.start)
    (hlexemes : after.map Token.lexeme = (.word, "USES") :: (.number, toString bits) :: ls) :
    ∃ r', header r = .ok ⟨kind, v, ⟨bits⟩, #[], .empty, .empty⟩ r' ∧ r'.lexemes = ls := by
  obtain ⟨hkind₁, htext₁⟩ := kind_of_lexeme hfirst
  obtain ⟨hkind₂, htext₂⟩ := kind_of_lexeme hsecond
  have hexpect := expect_eq htokens "shader kind"
  rw [hkind₁] at hexpect
  have hkeyword := expectKeyword_eq (r := { r with
    tokens := second :: (online ++ after), lastEnd := first.span.stop }) rfl hkind₂
  rw [htext₂] at hkeyword
  unfold header
  rw [bind_eq hexpect, htext₁, ShaderKind.ofKeyword?_keyword]
  dsimp only
  rw [bind_eq hkeyword, bind_eq (version_eq hv htext rfl honline hafter)]
  have htail : Accepts (do
      expectKeyword "USES"
      let uses ← usesMask
      return (⟨kind, v, uses, #[], .empty, .empty⟩ : Program))
      ((.word, "USES") :: (.number, toString bits) :: ls) ls
      (· = ⟨kind, v, ⟨bits⟩, #[], .empty, .empty⟩) := by
    refine (accepts_expectKeyword _).bind fun _ _ => (accepts_usesMask hbits).bind fun u hu => ?_
    exact accepts_pure (by rw [hu])
  obtain ⟨q, r', hok, hr', rfl⟩ := htail
    { r with tokens := after, lastEnd := second.span.stop } hlexemes
  exact ⟨r', hok, hr'⟩

end Header

section Declarations

variable {l : Lexeme} {ls after : List Lexeme}

theorem accepts_flags_word (n : Nat) (param output : Bool) {word : String} (hparam : word ≠ "param")
    (houtput : word ≠ "output") :
    Accepts (flags n param output) ((.word, word) :: ls) ls fun r =>
      r.1 = param ∧ r.2.1 = output ∧ r.2.2.lexeme = (.word, word) := by
  cases n with
  | zero => exact (accepts_expect _ _ _).bind fun t ht => accepts_pure ⟨rfl, rfl, ht⟩
  | succ n =>
    refine (accepts_expect _ _ _).bind fun t ht => ?_
    have htext := (kind_of_lexeme ht).2
    rw [if_neg (by rwa [htext]), if_neg (by rwa [htext])]
    exact accepts_pure ⟨rfl, rfl, ht⟩

section

variable {P : Bool × Bool × Token → Prop} {before : List Lexeme} {n : Nat} {param output : Bool}

theorem accepts_flags_param (h : Accepts (flags n true output) before after P) :
    Accepts (flags (n + 1) param output) ((.word, "param") :: before) after P := by
  refine (accepts_expect _ _ _).bind fun t ht => ?_
  rwa [if_pos (kind_of_lexeme ht).2]

theorem accepts_flags_output (h : Accepts (flags n param true) before after P) :
    Accepts (flags (n + 1) param output) ((.word, "output") :: before) after P := by
  refine (accepts_expect _ _ _).bind fun t ht => ?_
  have htext := (kind_of_lexeme ht).2
  rwa [if_neg (by rw [htext]; decide), if_pos htext]

end

theorem accepts_flags (n : Nat) (param output : Bool) {word : String} (hparam : word ≠ "param")
    (houtput : word ≠ "output") :
    Accepts (flags (n + 2) false false)
      ((if param then [(.word, "param")] else []) ++ (if output then [(.word, "output")] else []) ++
        (.word, word) :: ls) ls fun r =>
      r.1 = param ∧ r.2.1 = output ∧ r.2.2.lexeme = (.word, word) := by
  have hword (n : Nat) (p o : Bool) : Accepts (flags n p o) ((.word, word) :: ls) ls fun r =>
      r.1 = p ∧ r.2.1 = o ∧ r.2.2.lexeme = (.word, word) := accepts_flags_word n p o hparam houtput
  cases param with
  | false =>
    cases output with
    | false => exact hword (n + 2) false false
    | true => exact accepts_flags_output (hword (n + 1) false true)
  | true =>
    cases output with
    | false => exact accepts_flags_param (hword (n + 1) true false)
    | true => exact accepts_flags_param (accepts_flags_output (hword n true true))

theorem accepts_arrayLength_none (hl : l.1 ≠ .leftBracket) :
    Accepts arrayLength (l :: ls) (l :: ls) (· = none) := by
  refine accepts_peek.bind fun t ht => ?_
  have hkind : t.kind ≠ .leftBracket := by
    rw [← ht] at hl
    exact hl
  rw [if_neg hkind]
  exact accepts_pure rfl

theorem accepts_arrayLength_some {n : Nat} (hpos : 1 ≤ n) (hlt : n < 0x10000000000000000) :
    Accepts arrayLength
      ((.leftBracket, "[") :: (.number, toString n) :: (.rightBracket, "]") :: ls) ls
      (· = some n) := by
  refine accepts_peek.bind fun t ht => ?_
  rw [if_pos (kind_of_lexeme ht).1]
  refine accepts_skip.bind fun _ _ => (accepts_expect _ _ _).bind fun t ht => ?_
  rw [(kind_of_lexeme ht).2, Number.naturalBelow?_toString hlt]
  obtain ⟨m, rfl⟩ : ∃ m, n = m + 1 := ⟨n - 1, by omega⟩
  exact (accepts_expect _ _ _).bind fun _ _ => accepts_pure rfl

theorem accepts_arrayLength {length : Option Nat}
    (hlength : ∀ n, length = some n → 1 ≤ n ∧ n < 0x10000000000000000)
    (hl : l.1 ≠ .leftBracket) :
    Accepts arrayLength (lengthLexemes length ++ l :: ls) (l :: ls) (· = length) := by
  cases length with
  | none => exact accepts_arrayLength_none hl
  | some n =>
    obtain ⟨hpos, hlt⟩ := hlength n rfl
    exact accepts_arrayLength_some hpos hlt

theorem accepts_declaration {p : Program} {d : Declaration} (hnew : p.localIndex? d.name = none)
    (hlength : ∀ n, d.arrayLength = some n → 1 ≤ n ∧ n < 0x10000000000000000)
    (hl : l.1 ≠ .leftBracket) :
    Accepts (declaration p) (d.lexemes ++ l :: ls) (l :: ls) (· = d) := by
  have hparam : d.detail.keyword ≠ "param" := by cases d.detail <;> decide
  have houtput : d.detail.keyword ≠ "output" := by cases d.detail <;> decide
  refine accepts_get.bind fun r hr => ?_
  obtain ⟨n, hn⟩ : ∃ n, r.tokens.length = n + 2 := by
    have hcount := congrArg List.length hr
    simp only [Reading.lexemes, Declaration.lexemes, List.length_map, List.length_append,
      List.length_cons] at hcount
    exact ⟨r.tokens.length - 2, by omega⟩
  rw [hn]
  simp only [Declaration.lexemes, List.append_assoc, List.cons_append, List.nil_append]
  rw [← List.append_assoc]
  refine (accepts_flags n d.param d.output hparam houtput).bind fun found hfound => ?_
  obtain ⟨param, output, t⟩ := found
  obtain ⟨rfl, rfl, ht⟩ := hfound
  dsimp only
  rw [(kind_of_lexeme ht).2, Detail.ofKeyword?_keyword]
  refine (accepts_expect _ _ _).bind fun t ht => ?_
  rw [(kind_of_lexeme ht).2, ValueType.ofKeyword?_keyword]
  refine (accepts_expect _ _ _).bind fun t ht => ?_
  rw [(kind_of_lexeme ht).2]
  refine accepts_unless (by simp [hnew]) ?_
  exact (accepts_arrayLength hlength hl).bind fun length h => accepts_pure (by rw [h])

/-- A declaration begins with a word that is not the name of a segment or an opening bracket. -/
theorem exists_lexemes (d : Declaration) :
    ∃ l ls, d.lexemes = l :: ls ∧ endsSegment l = false ∧ l.1 ≠ .leftBracket := by
  obtain ⟨name, type, detail, param, output, length⟩ := d
  cases param with
  | true => exact ⟨_, _, rfl, rfl, nofun⟩
  | false =>
    cases output with
    | true => exact ⟨_, _, rfl, rfl, nofun⟩
    | false => cases detail <;> exact ⟨_, _, rfl, rfl, nofun⟩

theorem exists_next (ds : List Declaration) (ls : List Lexeme) (hl : l.1 ≠ .leftBracket) :
    ∃ l' ls', ds.flatMap Declaration.lexemes ++ l :: ls = l' :: ls' ∧ l'.1 ≠ .leftBracket := by
  cases ds with
  | nil => exact ⟨l, ls, rfl, hl⟩
  | cons d ds =>
    obtain ⟨l', ls', hd, -, hl'⟩ := exists_lexemes d
    exact ⟨l', _, by rw [List.flatMap_cons, hd, List.cons_append, List.cons_append], hl'⟩

theorem localIndex?_eq_none {p : Program} {d : Declaration} {ds : List Declaration}
    (hnames : ((p.locals.toList ++ d :: ds).map (·.name)).Nodup) :
    p.localIndex? d.name = none := by
  rw [List.map_append, List.nodup_append] at hnames
  refine List.findIdx?_eq_none_iff.mpr fun d' hd' => ?_
  have hne := hnames.2.2 d'.name (List.mem_map_of_mem hd') d.name (by simp)
  simpa using hne

theorem accepts_declarations {ds : List Declaration} {p : Program} {n : Nat}
    (hnames : ((p.locals.toList ++ ds).map (·.name)).Nodup)
    (hlengths : ∀ d ∈ ds, ∀ n, d.arrayLength = some n → 1 ≤ n ∧ n < 0x10000000000000000)
    (hend : endsSegment l = true) (hl : l.1 ≠ .leftBracket) (hn : ds.length ≤ n) :
    Accepts (declarations n p) (ds.flatMap Declaration.lexemes ++ l :: ls) (l :: ls)
      (· = { p with locals := p.locals ++ ds.toArray }) := by
  induction ds generalizing p n with
  | nil =>
    have hp : p = { p with locals := p.locals ++ #[] } := by simp
    cases n with
    | zero => exact accepts_pure hp
    | succ n =>
      refine accepts_atSegmentEnd.bind fun atEnd hatEnd => ?_
      rw [if_pos (by rw [hatEnd, hend])]
      exact accepts_pure hp
  | cons d ds ih =>
    cases n with
    | zero => cases hn
    | succ n =>
      obtain ⟨l₁, ls₁, hd, hl₁, -⟩ := exists_lexemes d
      obtain ⟨l₂, ls₂, hds, hl₂⟩ := exists_next ds ls hl
      have hdeclaration : Accepts (declaration p) (d.lexemes ++ l₂ :: ls₂) (l₂ :: ls₂) (· = d) :=
        accepts_declaration (localIndex?_eq_none hnames) (hlengths d List.mem_cons_self) hl₂
      have hpush : p.locals.push d ++ ds.toArray = p.locals ++ (d :: ds).toArray := by simp
      have hrest := ih (p := { p with locals := p.locals.push d }) (n := n)
        (by simpa using hnames) (fun d' hd' => hlengths d' (List.mem_cons_of_mem d hd'))
        (Nat.le_of_succ_le_succ hn)
      rw [List.flatMap_cons, List.append_assoc, hds, hd, List.cons_append]
      refine accepts_atSegmentEnd.bind fun atEnd hatEnd => ?_
      rw [if_neg (by rw [hatEnd, hl₁]; decide)]
      rw [← List.cons_append, ← hd]
      refine hdeclaration.bind fun d' hd' => ?_
      subst hd'
      refine (accepts_note _ _).bind fun _ _ => ?_
      rw [← hds, ← hpush]
      exact hrest

end Declarations

end ShadingMachine.Loader
