import Mathlib.Data.List.DropRight
import ShadingMachine.Proofs.Loading.Spelling

/-! Where the parts of a program come from: its version from a line of the text, the names of its
locals from words, and its segments from the tokens behind their names. -/
namespace ShadingMachine

open Text

namespace Text

theorem trim_eq (cs : List Char) : trim cs = (cs.dropWhile isBlank).rdropWhile isBlank := rfl

@[simp] theorem trim_trim (cs : List Char) : trim (trim cs) = trim cs := by
  have hfront : (trim cs).dropWhile isBlank = trim cs := by
    refine List.dropWhile_eq_self_iff.mpr fun hlength hblank => ?_
    have hleft : trim cs <+: cs.dropWhile isBlank := List.rdropWhile_prefix isBlank _
    have hpos := Nat.lt_of_lt_of_le hlength hleft.length_le
    rw [hleft.getElem hlength] at hblank
    exact List.dropWhile_get_zero_not isBlank cs hpos hblank
  have hback : (trim cs).rdropWhile isBlank = trim cs := List.rdropWhile_idempotent isBlank _
  rw [trim_eq, hfront, hback]

theorem mem_of_mem_trim {c : Char} {cs : List Char} (h : c ∈ trim cs) : c ∈ cs :=
  (List.dropWhile_sublist _).mem ((List.rdropWhile_prefix isBlank _).sublist.mem h)

theorem mem_of_mem_dropBytes {c : Char} {n : Nat} {cs : List Char} (h : c ∈ dropBytes n cs) :
    c ∈ cs := by
  rw [← takeBytes_append_dropBytes n cs]
  exact List.mem_append_right _ h

end Text

/-- A version that stands on a line of the text, in front of a comment. -/
structure IsVersionOf (text : List Char) (v : String) : Prop where
  nonempty : v.toList ≠ []
  trimmed : trim v.toList = v.toList
  line : ∀ c ∈ v.toList, c ∈ text ∧ c ≠ '\n' ∧ c ≠ '#'

/-- A declaration whose name is a word of the text, and whose length has 64 bits. -/
structure Declaration.WrittenIn (tokens : List Token) (d : Declaration) : Prop where
  name : ∃ t ∈ tokens, t.lexeme = (.word, d.name)
  length : ∀ n, d.arrayLength = some n → n < 0x10000000000000000

theorem Declaration.WrittenIn.mono {tokens tokens' : List Token} {d : Declaration}
    (h : d.WrittenIn tokens) (hsuffix : tokens <:+ tokens') : d.WrittenIn tokens' := by
  obtain ⟨t, ht, hname⟩ := h.name
  exact ⟨⟨t, hsuffix.subset ht, hname⟩, h.length⟩

/-- The parts of a program in the text and the tokens that it is read from. -/
structure Program.ReadFrom (text : List Char) (tokens : List Token) (p : Program) : Prop where
  version : IsVersionOf text p.version
  uses : p.uses.bits < 0x100000000
  locals : ∀ d ∈ p.locals, d.WrittenIn tokens
  segment : ∀ kind, p.SpelledIn kind tokens

namespace Loader

variable {r : Reading} {p : Program} {start : List Token} {next : Nat}

theorem reads_version : Reads version r fun v r' => r'.After r ∧ IsVersionOf r.source.text v := by
  refine (reads_get (Q := fun a r' => a = r ∧ r' = r) ⟨rfl, rfl⟩).bind fun r₁ r₂ hr => ?_
  obtain ⟨rfl, rfl⟩ := hr
  dsimp only
  split
  · have hfail : Reads (failWith (.expectedToken "version after AQSIS_V") (.point r₂.lastEnd) none :
        Load PUnit) r₂ fun _ _ => False := reads_failWith _ _ _
    exact hfail.bind fun _ _ h => h.elim
  · rename_i hne
    intro v r' hv
    cases hv
    refine ⟨⟨rfl, List.dropWhile_suffix _⟩, ?_, ?_, ?_⟩
    · simpa using hne
    · simp
    · intro c hc
      rw [String.toList_ofList] at hc
      have hcomment := mem_of_mem_trim hc
      have hline := List.mem_takeWhile_imp hcomment
      have hc := (List.takeWhile_sublist _).mem hcomment
      have hnewline := List.mem_takeWhile_imp hc
      refine ⟨mem_of_mem_dropBytes ((List.takeWhile_sublist _).mem hc), ?_, ?_⟩
      · simpa using hnewline
      · simpa using hline

theorem naturalBelow?_lt {bound n : Nat} {cs : List Char}
    (h : Number.naturalBelow? bound cs = some n) : n < bound := by
  simpa using (Option.filter_eq_some_iff.mp h).2

theorem reads_usesMask : Reads usesMask r fun u r' => r'.After r ∧ u.bits < 0x100000000 := by
  refine (reads_expect (by decide) _).bind fun t r₁ ht => ?_
  obtain ⟨-, ts, hts, rfl⟩ := ht
  split
  · rename_i n hn
    have hbound := naturalBelow?_lt hn
    dsimp only
    split
    · refine (reads_note _ _).bind fun _ r₂ hr₂ => reads_pure ?_
      exact ⟨hr₂.1.trans (Reading.after_next hts), hbound⟩
    · exact reads_pure ⟨Reading.after_next hts, hbound⟩
  · exact reads_fail _ _

theorem reads_header : Reads header r fun p r' => r'.After r ∧
    IsVersionOf r.source.text p.version ∧ p.uses.bits < 0x100000000 ∧ p.locals = #[] := by
  refine (reads_expect (by decide) _).bind fun t r₁ ht => ?_
  obtain ⟨-, ts, hts, rfl⟩ := ht
  split
  · refine (reads_expectKeyword _).bind fun _ r₂ hr₂ => ?_
    obtain ⟨t₂, ts₂, -, hts₂, rfl⟩ := hr₂
    refine reads_version.bind fun v r₃ hv => (reads_expectKeyword _).bind fun _ r₄ hr₄ => ?_
    obtain ⟨t₄, ts₄, -, hts₄, rfl⟩ := hr₄
    refine reads_usesMask.bind fun u r₅ hu => reads_pure ?_
    refine ⟨?_, hv.2, hu.2, rfl⟩
    exact hu.1.trans ((Reading.after_next hts₄).trans
      (hv.1.trans ((Reading.after_next hts₂).trans (Reading.after_next hts))))
  · exact reads_failWith _ _ _

theorem reads_flags (n : Nat) (param output : Bool) :
    Reads (flags n param output) r fun _ r' => r'.After r := by
  induction n generalizing r param output with
  | zero =>
    refine (reads_expect (by decide) _).bind fun t r₁ ht => reads_pure ?_
    obtain ⟨-, ts, hts, rfl⟩ := ht
    exact Reading.after_next hts
  | succ n ih =>
    refine (reads_expect (by decide) _).bind fun t r₁ ht => ?_
    obtain ⟨-, ts, hts, rfl⟩ := ht
    have hafter := Reading.after_next hts
    split
    · exact (ih true output).imp fun _ _ h => h.trans hafter
    · split
      · exact (ih param true).imp fun _ _ h => h.trans hafter
      · exact reads_pure hafter

theorem reads_arrayLength : Reads arrayLength r fun length r' =>
    r'.After r ∧ ∀ n, length = some n → n < 0x10000000000000000 := by
  refine reads_peek.bind fun t r₁ ht => ?_
  obtain ⟨rfl, ht⟩ := ht
  split
  · rename_i hbracket
    rcases ht with ⟨ts, hts⟩ | ⟨-, hend⟩
    · refine (reads_skip hts).bind fun _ r₂ hr₂ => ?_
      subst hr₂
      refine (reads_expect (by decide) _).bind fun t₃ r₃ ht₃ => ?_
      obtain ⟨-, ts₃, hts₃, rfl⟩ := ht₃
      have hafter := (Reading.after_next hts₃).trans (Reading.after_next hts)
      split
      · rename_i n hn
        refine (reads_expect (by decide) _).bind fun t₄ r₄ ht₄ => reads_pure ?_
        obtain ⟨-, ts₄, hts₄, rfl⟩ := ht₄
        refine ⟨(Reading.after_next hts₄).trans hafter, fun m hm => ?_⟩
        cases hm
        exact naturalBelow?_lt hn
      · exact reads_fail _ _
    · rw [hend] at hbracket
      cases hbracket
  · exact reads_pure ⟨.refl _, fun n hn => by cases hn⟩

theorem reads_declaration (p : Program) :
    Reads (declaration p) r fun d r' => r'.After r ∧ d.WrittenIn r.tokens := by
  refine (reads_get (Q := fun a r' => a = r ∧ r' = r) ⟨rfl, rfl⟩).bind fun r₁ r₂ hr => ?_
  obtain ⟨rfl, rfl⟩ := hr
  refine (reads_flags _ _ _).bind fun found r₃ hr₃ => ?_
  obtain ⟨param, output, t⟩ := found
  dsimp only
  split
  · exact reads_fail _ _
  · refine (reads_expect (by decide) _).bind fun t₄ r₄ ht₄ => ?_
    obtain ⟨-, ts₄, hts₄, rfl⟩ := ht₄
    split
    · exact reads_failWith _ _ _
    · refine (reads_expect (by decide) _).bind fun t₅ r₅ ht₅ => reads_unless fun _ => ?_
      obtain ⟨hkind, ts₅, hts₅, rfl⟩ := ht₅
      refine reads_arrayLength.bind fun length r₆ hr₆ => reads_pure ?_
      have hbefore := (Reading.after_next hts₄).trans hr₃
      have hafter := hr₆.1.trans ((Reading.after_next hts₅).trans hbefore)
      refine ⟨hafter, ⟨t₅, hbefore.tokens.subset ?_, Prod.ext hkind rfl⟩, hr₆.2⟩
      rw [hts₅]
      exact List.mem_cons_self

theorem reads_declarations (n : Nat) (p : Program) (hr : r.tokens <:+ start)
    (hlocals : ∀ d ∈ p.locals, d.WrittenIn start) :
    Reads (declarations n p) r fun p' r' => r'.After r ∧ p' = { p with locals := p'.locals } ∧
      ∀ d ∈ p'.locals, d.WrittenIn start := by
  induction n generalizing r p with
  | zero => exact reads_pure ⟨.refl r, rfl, hlocals⟩
  | succ n ih =>
    refine reads_atSegmentEnd.bind fun atEnd r₁ hend => ?_
    obtain ⟨rfl, -⟩ := hend
    split
    · exact reads_pure ⟨.refl _, rfl, hlocals⟩
    · refine (reads_declaration p).bind fun d r₂ hd => (reads_note _ _).bind fun _ r₃ hr₃ => ?_
      have hafter := hr₃.1.trans hd.1
      have hpush : ∀ d' ∈ p.locals.push d, d'.WrittenIn start := by
        intro d' hd'
        rcases Array.mem_push.mp hd' with hd' | rfl
        · exact hlocals d' hd'
        · exact hd.2.mono hr
      exact (ih { p with locals := p.locals.push d } (hafter.tokens.trans hr) hpush).imp
        fun p' r' hp' => ⟨hp'.1.trans hafter, hp'.2⟩

/-- A segment of instructions whose name has been taken. -/
theorem reads_namedSegment {text : List Char} {kind : SegmentKind} {before : List Token}
    {word name : Token} (hp : p.ReadFrom text start)
    (hstart : start = before ++ word :: name :: r.tokens)
    (hword : word.lexeme = (.word, "segment")) (hname : name.lexeme = (.word, kind.name)) :
    Reads (codeSegment p kind) r fun p' r' => p'.ReadFrom text start ∧ r'.tokens <:+ start := by
  refine (reads_codeSegment p kind).imp fun p' r' hp' => ?_
  obtain ⟨s, used, rfl, hused, hend, hspells⟩ := hp'
  rw [hused] at hstart
  have hlocals : (p.setSegment kind s).locals = p.locals := by cases kind <;> rfl
  refine ⟨⟨?_, ?_, ?_, fun kind' => ?_⟩, ?_⟩
  · cases kind <;> exact hp.version
  · cases kind <;> exact hp.uses
  · exact hlocals ▸ hp.locals
  · by_cases hkind : kind' = kind
    · subst hkind
      refine .inr ⟨before, word, name, used, r'.tokens, hstart, hword, hname, hend, ?_⟩
      rw [Program.segment_setSegment]
      exact hspells.congr hlocals
    · have hother : (p.setSegment kind s).segment kind' = p.segment kind' := by
        cases kind <;> cases kind' <;> first | rfl | exact absurd rfl hkind
      exact (hp.segment kind').congr hlocals hother
  · exact ⟨before ++ word :: name :: used, by rw [hstart]; simp⟩

/-- The declarations of a program that has no segments of instructions yet. -/
theorem reads_data {text : List Char} (n : Nat) (hp : p.ReadFrom text start)
    (h₀ : ReadUpTo 0 p) (hr : r.tokens <:+ start) :
    Reads (declarations n p) r fun p' r' => p'.ReadFrom text start ∧ r'.tokens <:+ start := by
  refine (reads_declarations n p hr hp.locals).imp fun p' r' hp' => ?_
  obtain ⟨hafter, heq, hlocals⟩ := hp'
  refine ⟨⟨?_, ?_, hlocals, fun kind => .inl ?_⟩, hafter.tokens.trans hr⟩
  · rw [heq]
    exact hp.version
  · rw [heq]
    exact hp.uses
  · rw [heq]
    cases kind with
    | init => exact h₀.init (by omega)
    | code => exact h₀.code (by omega)

theorem reads_segments {text : List Char} (n : Nat) (hp : p.ReadFrom text start)
    (hnext : ReadUpTo next p) (hr : r.tokens <:+ start) :
    Reads (segments n next p) r fun p' _ => p'.ReadFrom text start := by
  induction n generalizing next p r with
  | zero => exact reads_pure hp
  | succ n ih =>
    refine reads_peek.bind fun t r₁ ht => ?_
    obtain ⟨rfl, -⟩ := ht
    split
    · exact reads_pure hp
    · refine (reads_expectKeyword _).bind fun _ r₂ hr₂ => ?_
      obtain ⟨word, ts, hword, hts, rfl⟩ := hr₂
      refine (reads_expect (by decide) _).bind fun name r₃ hname => ?_
      obtain ⟨hkind, ts₃, hts₃, rfl⟩ := hname
      have hts₃ : ts = name :: ts₃ := hts₃
      obtain ⟨before, hbefore⟩ := hr
      rw [hts, hts₃] at hbefore
      have hstart : start = before ++ word :: name :: ((r₁.next word ts).next name ts₃).tokens :=
        hbefore.symm
      generalize (r₁.next word ts).next name ts₃ = r₃ at hstart ⊢
      split
      · exact reads_failWith _ _ _
      · rename_i k hk
        obtain ⟨hlt, htext, -⟩ := List.findIdx?_eq_some_iff_getElem.mp hk
        have htext : segmentNames[k]? = some name.text := by
          rw [List.getElem?_eq_getElem hlt]
          simpa using htext
        refine reads_unless fun hle => ?_
        have hk := hnext.mono (Nat.le_of_not_lt hle)
        match k, hk, htext with
        | 0, hk, htext =>
          refine (reads_get (Q := fun _ r' => r' = r₃) rfl).bind fun r₄ r₅ hr₅ => ?_
          subst hr₅
          have hsuffix : r₅.tokens <:+ start := ⟨before ++ [word, name], by rw [hstart]; simp⟩
          have hdata := (yields_data r₄.tokens.length hk).reads (reads_data _ hp hk hsuffix)
          exact hdata.bind fun p' r' hp' => ih hp'.2.1 hp'.1 hp'.2.2
        | 1, hk, htext =>
          have hlexeme : name.lexeme = (.word, SegmentKind.init.name) :=
            Prod.ext hkind (Option.some.inj htext).symm
          have hinit := (yields_init hk).reads
            (reads_namedSegment hp hstart hword hlexeme)
          exact hinit.bind fun p' r' hp' => ih hp'.2.1 hp'.1 hp'.2.2
        | k + 2, hk, htext =>
          have hlexeme : name.lexeme = (.word, SegmentKind.code.name) := by
            cases k with
            | zero => exact Prod.ext hkind (Option.some.inj htext).symm
            | succ k => cases htext
          have hcode := (yields_code hk).reads
            (reads_namedSegment hp hstart hword hlexeme)
          exact hcode.bind fun p' r' hp' => ih hp'.2.1 hp'.1 hp'.2.2

theorem reads_program : Reads program r fun p _ => p.ReadFrom r.source.text r.tokens := by
  refine (yields_header.reads reads_header).bind fun p r₁ hp => ?_
  obtain ⟨h₀, hafter, hversion, huses, hlocals⟩ := hp
  refine (reads_get (Q := fun _ r' => r' = r₁) rfl).bind fun r₂ r₃ hr₃ => ?_
  subst hr₃
  have hread : p.ReadFrom r.source.text r.tokens := by
    refine ⟨hversion, huses, by simp [hlocals], fun kind => .inl ?_⟩
    cases kind with
    | init => exact h₀.init (by omega)
    | code => exact h₀.code (by omega)
  refine (reads_segments _ hread h₀ hafter.tokens).bind fun p' r₄ hp' => ?_
  exact (reads_note _ _).bind fun _ _ _ => reads_pure hp'

end Loader

/-- A program that loads comes from the text and its tokens, in which nothing is wrong. -/
theorem Program.readFrom_of_load {text : List Char} {p : Program}
    (h : (Program.load text).1 = .ok p) :
    p.ReadFrom (unifyLineEndings text).1 (scan (unifyLineEndings text).1).1 ∧
      (scan (unifyLineEndings text).1).2 = [] := by
  unfold load at h
  dsimp only at h
  split at h
  · cases h
  · rename_i hfaults
    split at h
    · rename_i heq
      cases h
      exact ⟨Loader.reads_program _ _ heq, hfaults⟩
    · cases h

namespace Program

/-- Every text that loads is a well-formed program, and the program says what the text says. -/
theorem wellFormed_readFrom_of_load {text : List Char} {p : Program} (h : (load text).1 = .ok p) :
    p.WellFormed ∧ p.ReadFrom (unifyLineEndings text).1 (scan (unifyLineEndings text).1).1 :=
  ⟨wellFormed_of_load h, (readFrom_of_load h).1⟩

/-- A local hides a variable of the graphics state, and a label stands at the end. -/
theorem wellFormed_readFrom_hidden :
    let text := ("surface\nAQSIS_V 1.0\nUSES 0\nsegment Data\nuniform float Ci\n" ++
      "varying color a[2]\nsegment Code\n:1\npushv Ci\npushv Ci\nipop a\njmp 2\n:2\n").toList
    ∃ p, (load text).1 = .ok p ∧ p.WellFormed ∧
      p.ReadFrom (unifyLineEndings text).1 (scan (unifyLineEndings text).1).1 := by
  intro text
  have hloads : (load text).1.toOption.isSome = true := by decide +kernel
  cases hp : (load text).1 with
  | error e =>
    rw [hp] at hloads
    cases hloads
  | ok p => exact ⟨p, rfl, wellFormed_readFrom_of_load hp⟩

end Program

end ShadingMachine
