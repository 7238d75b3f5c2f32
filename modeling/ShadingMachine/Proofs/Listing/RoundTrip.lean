import ShadingMachine.Proofs.Listing.Declarations
import ShadingMachine.Proofs.Listing.Jumps

/-! A program is read back from its listing. -/
namespace ShadingMachine

open Text

namespace Program

variable {p q : Program}

theorem elementLexeme_congr (h : p.locals = q.locals) (e : Element) :
    p.elementLexeme e = q.elementLexeme e := by
  unfold elementLexeme operandListing
  rw [h]

theorem lexemesFrom_congr (h : p.locals = q.locals) (s : Segment) (position : Nat)
    (es : List Element) : p.lexemesFrom s position es = q.lexemesFrom s position es := by
  induction es generalizing position with
  | nil => rfl
  | cons e es ih => rw [lexemesFrom, lexemesFrom, elementLexeme_congr h, ih]

def segmentLexemes (p : Program) (s : Segment) : List Lexeme :=
  p.lexemesFrom s 0 s.elements.toList

/-- What follows the header of a listing. -/
def bodyLexemes (p : Program) : List Lexeme :=
  (.word, "segment") :: (.word, "Data") :: (p.locals.toList.flatMap Declaration.lexemes ++
    (.word, "segment") :: (.word, "Init") :: (p.segmentLexemes p.init ++
      (.word, "segment") :: (.word, "Code") :: (p.segmentLexemes p.code ++
        [(.endOfInput, "")])))

end Program

namespace Loader

variable {P : Program → Prop} {before after : List Lexeme} {p : Program} {n next : Nat}

theorem accepts_segments_data
    (h : Accepts (do segments n 1 (← declarations (← get).tokens.length p)) before after P) :
    Accepts (segments (n + 1) 0 p) ((.word, "segment") :: (.word, "Data") :: before) after P := by
  refine accepts_peek.bind fun t ht => ?_
  rw [if_neg (by rw [(kind_of_lexeme ht).1]; decide)]
  refine (accepts_expectKeyword _).bind fun _ _ => (accepts_expect _ _ _).bind fun t ht => ?_
  rw [(kind_of_lexeme ht).2]
  exact accepts_unless (by decide) h

/-- The place of a segment among the names of segments. -/
def place : SegmentKind → Nat
  | .init => 1
  | .code => 2

theorem accepts_segments_code (kind : SegmentKind) (hnext : next ≤ place kind)
    (h : Accepts (do segments n (place kind + 1) (← codeSegment p kind)) before after P) :
    Accepts (segments (n + 1) next p) ((.word, "segment") :: (.word, kind.name) :: before)
      after P := by
  refine accepts_peek.bind fun t ht => ?_
  rw [if_neg (by rw [(kind_of_lexeme ht).1]; decide)]
  refine (accepts_expectKeyword _).bind fun _ _ => (accepts_expect _ _ _).bind fun t ht => ?_
  rw [(kind_of_lexeme ht).2]
  cases kind with
  | init => exact accepts_unless (Nat.not_lt_of_le hnext) h
  | code => exact accepts_unless (Nat.not_lt_of_le hnext) h

theorem accepts_segments_end (hp : P p) :
    Accepts (segments n next p) [(.endOfInput, "")] [(.endOfInput, "")] P := by
  cases n with
  | zero => exact accepts_pure hp
  | succ n =>
    refine accepts_peek.bind fun t ht => ?_
    rw [if_pos (kind_of_lexeme ht).1]
    exact accepts_pure hp

theorem recoverable (hp : p.WellFormed) (hl : p.Listable) {q : Program}
    (hq : q.locals = p.locals) (kind : SegmentKind) : Recoverable q (p.segment kind) where
  segment := hq ▸ hp.segment kind
  names := hq ▸ hp.names
  words := hq ▸ hl.names
  elements := hq ▸ hl.elements kind
  ids := hl.ids kind

theorem length_le_declarations (ds : List Declaration) :
    ds.length ≤ (ds.flatMap Declaration.lexemes).length := by
  induction ds with
  | nil => exact Nat.le_refl _
  | cons d ds ih =>
    simp only [List.length_cons, List.flatMap_cons, List.length_append, Declaration.lexemes]
    omega

/-- Reading what follows the header gives the program, if the header was read already. -/
theorem accepts_segments {q : Program} (hp : p.WellFormed) (hl : p.Listable)
    (hq : q = { p with locals := #[], init := .empty, code := .empty }) (hn : 3 ≤ n) :
    Accepts (segments n 0 q) p.bodyLexemes [(.endOfInput, "")] (· = p) := by
  obtain ⟨m, rfl⟩ : ∃ m, n = m + 3 := ⟨n - 3, by omega⟩
  have hnames : ((q.locals.toList ++ p.locals.toList).map (·.name)).Nodup := by
    subst hq
    exact hp.names
  have hlengths : ∀ d ∈ p.locals.toList, ∀ n, d.arrayLength = some n →
      1 ≤ n ∧ n < 0x10000000000000000 := fun d hd n hn =>
    ⟨hp.lengths d (Array.mem_toList_iff.mp hd) n hn, hl.lengths d (Array.mem_toList_iff.mp hd) n hn⟩
  refine accepts_segments_data (accepts_get.bind fun r hr => ?_)
  have hcount : p.locals.toList.length ≤ r.tokens.length := by
    have hle := length_le_declarations p.locals.toList
    have hlength := congrArg List.length hr
    rw [Reading.lexemes, List.length_map, List.length_append] at hlength
    omega
  refine (accepts_declarations hnames hlengths (l := (.word, "segment")) rfl (by decide)
    hcount).bind fun q₁ hq₁ => ?_
  have hq₁ : q₁ = { p with init := .empty, code := .empty } := by
    rw [hq₁, hq]
    simp
  have hinit : p.segmentLexemes p.init = q₁.lexemesFrom p.init 0 p.init.elements.toList :=
    Program.lexemesFrom_congr (by rw [hq₁]) _ _ _
  refine accepts_segments_code .init (Nat.le_refl 1) ?_
  rw [hinit]
  refine (accepts_codeSegment (recoverable hp hl (by rw [hq₁]) .init) .init rfl).bind
    fun q₂ hq₂ => ?_
  have hq₂ : q₂ = { p with code := .empty } := by
    rw [hq₂, hq₁]
    rfl
  have hcode : p.segmentLexemes p.code = q₂.lexemesFrom p.code 0 p.code.elements.toList :=
    Program.lexemesFrom_congr (by rw [hq₂]) _ _ _
  refine accepts_segments_code .code (Nat.le_refl 2) ?_
  rw [hcode]
  refine (accepts_codeSegment (recoverable hp hl (by rw [hq₂]) .code) .code rfl).bind
    fun q₃ hq₃ => ?_
  refine accepts_segments_end ?_
  rw [hq₃, hq₂]
  rfl

end Loader

namespace Program

variable {p : Program}

theorem closed_segmentLine (name : String) (h : isName name = true) :
    Closed ("\nsegment " ++ name ++ "\n").toList [(.word, "segment"), (.word, name)] := by
  have hwords := (open_name (s := "segment") (by decide)).append isSeparator_space
    (open_spaced (open_name h))
  have hline := closed_newline.append (hwords.append_closed isSeparator_newline closed_newline)
  simpa using hline

theorem closed_segment (hp : p.WellFormed) (hl : p.Listable) (kind : SegmentKind) :
    Closed (p.segmentListing (p.segment kind)).toList (p.segmentLexemes (p.segment kind)) := by
  have hw := hp.segment kind
  refine closed_segmentListing hw.instructions (fun code k e he h => ?_)
    fun x hx => (hw.boundary x hx).startsAt
  exact isOperand h (fun _ hx => ⟨_, hx.choose_spec.1⟩)
    (hl.elements kind e (Array.mem_toList_iff.mp he)) hl.names

/-- The listing after the version. -/
def tailListing (p : Program) : String :=
  s!"USES {p.uses.bits}\n" ++
  "\nsegment Data\n" ++ String.join (p.locals.toList.map Declaration.listing) ++
  "\nsegment Init\n" ++ p.segmentListing p.init ++
  "\nsegment Code\n" ++ p.segmentListing p.code

theorem toList_listing (p : Program) :
    p.listing.toList = (p.kind.keyword.toList ++ ['\n']) ++ ("AQSIS_V".toList ++
      ' ' :: (p.version.toList ++ '\n' :: p.tailListing.toList)) := by
  simp [listing, tailListing, toString_string]

theorem closed_tailListing (hp : p.WellFormed) (hl : p.Listable) :
    ∃ ls, Closed p.tailListing.toList ls ∧ ls ++ [(.endOfInput, "")] =
      (.word, "USES") :: (.number, toString p.uses.bits) :: p.bodyLexemes := by
  have huses := (((open_name (s := "USES") (by decide)).append isSeparator_space
    (open_spaced (open_natural p.uses.bits))).append_closed isSeparator_newline closed_newline)
  have hdata := (closed_segmentLine "Data" (by decide)).append
    (closed_join p.locals.toList fun d hd =>
      Declaration.closed_listing (hl.names d (Array.mem_toList_iff.mp hd)))
  have hinit := (closed_segmentLine "Init" (by decide)).append (closed_segment hp hl .init)
  have hcode := (closed_segmentLine "Code" (by decide)).append (closed_segment hp hl .code)
  have hall := huses.append (hdata.append (hinit.append hcode))
  refine ⟨([(.word, "USES"), (.number, toString p.uses.bits)] : List Lexeme) ++
    (([(.word, "segment"), (.word, "Data")] : List Lexeme) ++
        p.locals.toList.flatMap Declaration.lexemes ++
      (([(.word, "segment"), (.word, "Init")] : List Lexeme) ++ p.segmentLexemes p.init ++
        (([(.word, "segment"), (.word, "Code")] : List Lexeme) ++ p.segmentLexemes p.code))), ?_, ?_⟩
  · simpa [tailListing, toString_string, segment] using hall
  · simp [bodyLexemes]

theorem closed_kindLine (k : ShaderKind) :
    Closed (k.keyword.toList ++ ['\n']) [(.word, k.keyword)] :=
  (open_name (isName_kind k)).append_closed isSeparator_newline closed_newline

theorem isPlain_listing (hp : p.WellFormed) (hl : p.Listable) :
    ∀ c ∈ p.listing.toList, IsPlain c := by
  obtain ⟨ls, htail, -⟩ := closed_tailListing hp hl
  have hkeyword : ∀ c ∈ "AQSIS_V".toList, IsPlain c :=
    ((open_name (by decide)) ' ' [] isSeparator_space).plain
  have hspace : IsPlain ' ' := by decide
  have hnewline : IsPlain '\n' := by decide
  rw [toList_listing]
  simp only [List.forall_mem_append, List.forall_mem_cons]
  have hkind := List.forall_mem_append.mp ((closed_kindLine p.kind) []).plain
  exact ⟨⟨hkind.1, by simp [hnewline]⟩, hkeyword, hspace, fun c hc => (hl.version.ne hc).2.1,
    hnewline, (htail []).plain⟩

theorem unifyLineEndings_listing (hp : p.WellFormed) (hl : p.Listable) :
    unifyLineEndings p.listing.toList = (p.listing.toList, []) := by
  refine unifyLineEndings_eq_self (isPlain_listing hp hl) ?_
  have hkind : p.kind.keyword.toList ≠ [] ∧ p.kind.keyword.toList.head? ≠ some '\ufeff' := by
    cases p.kind <;> decide
  rw [toList_listing, List.append_assoc, List.head?_append_of_ne_nil _ hkind.1]
  exact hkind.2

theorem exists_of_map_singleton {tokens : List Token} {l : Lexeme}
    (h : tokens.map Token.lexeme = [l]) : ∃ t, tokens = [t] ∧ t.lexeme = l := by
  obtain ⟨t, ts, rfl, ht, hts⟩ := List.map_eq_cons_iff.mp h
  rw [List.map_eq_nil_iff.mp hts]
  exact ⟨t, rfl, ht⟩

/-- The tokens of a listing: two words, the tokens of the version, and the rest. -/
theorem exists_scan_listing (hp : p.WellFormed) (hl : p.Listable) :
    ∃ (first second : Token) (online after : List Token) (start : Nat) (rest : List Char),
      scan p.listing.toList = (first :: second :: (online ++ after), []) ∧
      first.lexeme = (.word, p.kind.keyword) ∧ second.lexeme = (.word, "AQSIS_V") ∧
      dropBytes second.span.stop p.listing.toList = ' ' :: p.version.toList ++ '\n' :: rest ∧
      (∀ t ∈ online, t.Within start (second.span.stop + byteSize (' ' :: p.version.toList))) ∧
      (∀ t ∈ after, second.span.stop + byteSize (' ' :: p.version.toList) ≤ t.span.start) ∧
      after.map Token.lexeme =
        (.word, "USES") :: (.number, toString p.uses.bits) :: p.bodyLexemes := by
  have hversion : ∀ c ∈ p.version.toList, c ≠ '#' := fun c hc => (hl.version.ne hc).2.2
  obtain ⟨ls, htail, hls⟩ := closed_tailListing hp hl
  generalize hR : p.tailListing.toList = R at htail
  have htext := toList_listing p
  rw [hR] at htext
  -- One part after the other, each from where the last one ends.
  obtain ⟨tokens, hkind, hmap⟩ := (closed_kindLine p.kind
    ("AQSIS_V".toList ++ ' ' :: (p.version.toList ++ '\n' :: R))).scans 0
  obtain ⟨first, rfl, hfirst⟩ := exists_of_map_singleton hmap
  generalize ha : 0 + byteSize (p.kind.keyword.toList ++ ['\n']) = a at hkind
  have hword : Scans a "AQSIS_V".toList [⟨.word, "AQSIS_V", ⟨a, a + byteSize "AQSIS_V".toList⟩⟩]
      (' ' :: (p.version.toList ++ '\n' :: R)) :=
    scans_piece isSeparator_space (by decide) (by decide) (piece_name (by decide) (by decide))
  generalize hb : a + byteSize "AQSIS_V".toList = b at hword
  have hspace : Scans b [' '] [] (p.version.toList ++ '\n' :: R) := scans_gap rfl
  obtain ⟨online, hline, hwithin⟩ := exists_scans isSeparator_newline p.version.toList hversion
    (b + byteSize [' ']) (faults_eq_nil 0 _ hl.version.clean _) R
  have hstop : b + byteSize [' '] + byteSize p.version.toList =
      b + byteSize (' ' :: p.version.toList) := Nat.add_assoc _ _ _
  rw [hstop] at hwithin
  obtain ⟨rest, hrest, hlexemes⟩ := ((closed_newline.append htail) []).scans
    (b + byteSize (' ' :: p.version.toList))
  have hblank : scanFrom b (' ' :: (p.version.toList ++ '\n' :: R)) = _ := hspace.eq
  have hend : scanFrom (b + byteSize (' ' :: p.version.toList)) ('\n' :: R) =
      (rest ++ [⟨.endOfInput, "",
        .point (b + byteSize (' ' :: p.version.toList) + byteSize ('\n' :: R))⟩], []) := by
    have h := hrest.eq
    rw [List.append_nil, scanFrom] at h
    exact h
  have hstart := le_start (b + byteSize (' ' :: p.version.toList)) ('\n' :: R)
  rw [hend] at hstart
  refine ⟨first, ⟨.word, "AQSIS_V", ⟨a, b⟩⟩, online, _, _, R, ?_, hfirst, rfl, ?_, hwithin,
    hstart, ?_⟩
  · rw [htext, scan, hkind.eq, ha, hword.eq, hb, hblank, hline.eq, hstop, hend]
    rfl
  · have hsize : b = byteSize (p.kind.keyword.toList ++ ['\n'] ++ "AQSIS_V".toList) := by
      rw [← hb, ← ha, Nat.zero_add]
      exact (byteSize_append _ _).symm
    rw [htext, ← List.append_assoc, hsize, dropBytes_byteSize_append]
    rfl
  · rw [List.map_append, hlexemes, ← hls]
    rfl

end Program

namespace Loader

variable {p : Program}

theorem program_eq (hp : p.WellFormed) (hl : p.Listable) {source : Source}
    (hsource : source.text = p.listing.toList) {tokens : List Token}
    (htokens : scan p.listing.toList = (tokens, [])) (log : Log) :
    ∃ r, program ⟨source, tokens, 0, log⟩ = .ok p r := by
  obtain ⟨first, second, online, after, start, rest, hscan, hfirst, hsecond, htext, honline,
    hafter, hlexemes⟩ := Program.exists_scan_listing hp hl
  rw [hscan] at htokens
  cases htokens
  rw [← hsource] at htext
  obtain ⟨r₁, hheader, hr₁⟩ := header_eq (r := ⟨source, _, 0, log⟩) hl.version hl.uses rfl hfirst
    hsecond htext honline hafter hlexemes
  have hbody : Accepts (do
      let q ← segments (← get).tokens.length 0
        ⟨p.kind, p.version, p.uses, #[], .empty, .empty⟩
      note .debug (s!"loaded {q.kind.keyword} program: {q.locals.size} locals, " ++
        s!"{q.init.instructionCount} init and {q.code.instructionCount} code instructions")
      return q) p.bodyLexemes [(.endOfInput, "")] (· = p) := by
    refine accepts_get.bind fun r hr => ?_
    have hcount : 3 ≤ r.tokens.length := by
      have hlength := congrArg List.length hr
      simp only [Reading.lexemes, Program.bodyLexemes, List.length_map, List.length_append,
        List.length_cons] at hlength
      omega
    refine (accepts_segments hp hl rfl hcount).bind fun q hq => ?_
    exact (accepts_note _ _).bind fun _ _ => accepts_pure hq
  obtain ⟨q, r₂, hok, -, rfl⟩ := hbody r₁ hr₁
  refine ⟨r₂, ?_⟩
  unfold program
  rw [bind_eq hheader]
  exact hok

end Loader

/-- Every well-formed program whose text can say all of it is read back from its listing. -/
theorem Program.load_listing (p : Program) (hp : p.WellFormed) (hl : p.Listable) :
    (Program.load p.listing.toList).1 = .ok p := by
  obtain ⟨first, second, online, after, -, -, hscan, -⟩ := exists_scan_listing hp hl
  have hprogram := Loader.program_eq hp hl (Source.text_ofChars p.listing.toList) hscan
  unfold load
  rw [unifyLineEndings_listing hp hl]
  dsimp only
  rw [hscan]
  dsimp only
  obtain ⟨r, hr⟩ := hprogram (([] : List Diagnostic).map fun d => Note.mk .warn d.message).toArray
  simp only [EStateM.run, hr]

end ShadingMachine
