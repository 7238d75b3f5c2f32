import ShadingMachine.Proofs.Loading.Parts
import ShadingMachine.Proofs.Loading.Report
import ShadingMachine.Proofs.Text.UnifiedLayout

/-! Loading texts that differ in their layout. With other gaps between its tokens a text is scanned
to the same lexemes, and it loads in the same way if the line with the version is kept: only there
do the places of tokens matter. -/
namespace ShadingMachine

open Text

namespace Text

variable {text : List Char} {gs : List (List Char)} {ls : List Lexeme} {g₁ g₂ : List Char}
  {l₁ l₂ : Lexeme}

/-- A text that begins with a byte-order mark is not without faults. -/
theorem not_hasMark_of_clean (h : (scan text).2 = []) : ¬HasMark text := by
  intro hmark
  obtain ⟨rest, rfl⟩ := List.head?_eq_some_iff.mp hmark
  have hpiece : piece '\ufeff' rest = (.fault (.unexpectedChar '\ufeff'), ['\ufeff'], rest) := rfl
  exact scanFrom_fault hpiece 0 h

/-- The rest of a text behind its second token. -/
structure BehindSecond (text : List Char) (first second : Token) (rest : List Char) : Prop where
  tokens : (scan text).1 = first :: second :: (scanFrom second.span.stop rest).1
  faults : (scanFrom second.span.stop rest).2 = []
  rest : dropBytes second.span.stop text = rest

theorem LaidOut.behindSecond (h : LaidOut text (g₁ :: g₂ :: gs) (l₁ :: l₂ :: ls))
    (hl₂ : l₂.1 ≠ .endOfInput) : ∃ first second, second.lexeme = l₂ ∧
      BehindSecond text first second (layOut gs ls) := by
  cases h.laid with
  | token _ hlaid =>
    cases hlaid with
    | last => exact absurd rfl hl₂
    | token _ hlaid =>
      have hlayout : AreLayout ['\n'] gs := by
        cases hlaid <;> exact h.layout.uncons.2.uncons.2
      let first : Token :=
        ⟨l₁.1, l₁.2, ⟨0 + byteSize g₁, 0 + byteSize g₁ + byteSize l₁.2.toList⟩⟩
      let start := first.span.stop + byteSize g₂
      let second : Token := ⟨l₂.1, l₂.2, ⟨start, start + byteSize l₂.2.toList⟩⟩
      have hbehind := hlaid.scanFrom hlayout second.span.stop
      refine ⟨first, second, rfl, ?_, congrArg Prod.snd hbehind, ?_⟩
      · rw [h.scan, hbehind]
        rfl
      · have hdrop := dropBytes_byteSize_append (g₁ ++ l₁.2.toList ++ g₂ ++ l₂.2.toList)
          (layOut gs ls)
        rw [h.text]
        simpa [first, second, start, layOut, byteSize_append, Nat.add_assoc] using hdrop

/-- The rest of the line with the version, if there is one: it is behind the second token. -/
def headerLine? (text : List Char) : Option (List Char) :=
  match (scan text).1 with
  | _ :: t :: _ =>
    if t.lexeme = (.word, "AQSIS_V") then
      some (((dropBytes t.span.stop text).takeWhile (· != '\n')).takeWhile (· != '\r'))
    else none
  | _ => none

theorem BehindSecond.headerLine? {first second : Token} {rest : List Char}
    (h : BehindSecond text first second rest) (hsecond : second.lexeme = (.word, "AQSIS_V")) :
    headerLine? text = some ((rest.takeWhile (· != '\n')).takeWhile (· != '\r')) := by
  rw [Text.headerLine?, h.tokens]
  dsimp only
  rw [if_pos hsecond, h.rest]

theorem spelledIn_of_scan (text : List Char) : ∀ t ∈ (scan text).1, t.SpelledIn text := by
  obtain ⟨spans, h⟩ := tiling_scanFrom [] text
  exact h.spelled

end Text

namespace Loader

/-- Tokens with the same lexemes are the same but for their places. -/
theorem forall₂_sameToken {text text' : List Char} {ts ts' : List Token}
    (hts : ∀ t ∈ ts, t.SpelledIn text) (hts' : ∀ t ∈ ts', t.SpelledIn text')
    (h : ts'.map Token.lexeme = ts.map Token.lexeme) :
    List.Forall₂ (SameToken (.ofChars text) (.ofChars text')) ts ts' := by
  induction ts generalizing ts' with
  | nil =>
    rw [List.map_nil, List.map_eq_nil_iff] at h
    subst h
    exact .nil
  | cons t ts ih =>
    obtain ⟨t', ts', rfl, hlexeme, h⟩ := List.map_eq_cons_iff.mp h
    obtain ⟨ht, hts⟩ := List.forall_mem_cons.mp hts
    obtain ⟨ht', hts'⟩ := List.forall_mem_cons.mp hts'
    obtain ⟨hkind, htext⟩ := Prod.mk.inj hlexeme
    exact .cons ⟨hkind, htext, by rw [ht.slice, ht'.slice, htext]⟩ (ih hts hts' h)

variable {text text' : List Char} {gs gs' : List (List Char)} {ls : List Lexeme}

/-- A text whose tokens all are read still when its line endings are made alike. -/
structure ReadsOn (text : List Char) (gs : List (List Char)) (ls : List Lexeme) : Prop where
  laidOut : LaidOut text gs ls
  layout : AreLayout ['\n', '\r'] gs
  whole : ∀ l ∈ ls, brokenString? l = none

namespace ReadsOn

variable (h : ReadsOn text gs ls)
include h

theorem unified : LaidOut (unifyLineEndings text).1 (gs.map Text.unified)
    (ls.map Lexeme.unified) := by
  have hclean : (scan text).2 = [] := congrArg Prod.snd h.laidOut.scan
  rw [unifyLineEndings_of_not_hasMark (not_hasMark_of_clean hclean)]
  exact h.laidOut.unified h.layout h.whole

theorem clean : (scan (unifyLineEndings text).1).2 = [] := congrArg Prod.snd h.unified.scan

/-- The line that the version is read from is that of the text. -/
theorem line {kind : ShaderKind} {r : Reading} {first second : Token}
    (hr : BehindFront kind (start text) r first second) :
    ∃ line, headerLine? text = some line ∧ r.line = line.map plainChar ∧
      r.behindLine = { r with tokens := r.tokens.drop (pieceCount (line.map plainChar)) } := by
  have htokens : (scan (unifyLineEndings text).1).1 = first :: second :: r.tokens := hr.tokens
  have hlexemes := h.unified.lexemes
  rw [Text.lexemes, htokens, List.map_cons, List.map_cons, hr.lexeme] at hlexemes
  obtain ⟨l₁, ls, rfl, -, hls⟩ := List.map_eq_cons_iff.mp hlexemes.symm
  obtain ⟨l₂, ls, rfl, hl₂, -⟩ := List.map_eq_cons_iff.mp hls
  cases h.laidOut.laid with
  | @token g₁ gs _ _ _ hlaid =>
    cases hlaid with
    | last => cases hl₂
    | @token g₂ gs _ _ hstands hlaid =>
      have hkind : l₂.1 = .word := congrArg Prod.fst hl₂
      obtain rfl : l₂ = (.word, "AQSIS_V") :=
        (hstands.unified_eq_self (by rw [hkind]; decide)).symm.trans hl₂
      obtain ⟨_, _, hsecond, hbehind⟩ := h.laidOut.behindSecond (by decide)
      refine ⟨_, hbehind.headerLine? hsecond, ?_⟩
      obtain ⟨first', second', -, htokens', hfaults, hrest⟩ := h.unified.behindSecond (by decide)
      rw [← hlaid.unified_layOut] at htokens' hfaults hrest
      obtain ⟨rfl, hbehindTokens⟩ := List.cons.inj (htokens.symm.trans htokens')
      obtain ⟨rfl, hrTokens⟩ := List.cons.inj hbehindTokens
      have hdrop : dropBytes r.lastEnd r.source.text = Text.unified (layOut gs ls) := by
        rw [hr.lastEnd, hr.source]
        exact hrest
      have hline := takeWhile_unified (layOut gs ls)
      rw [← hdrop] at hline
      refine ⟨hline, ?_⟩
      rw [← hline]
      refine behindLine_eq ?_ ?_
      · rw [hdrop, hr.lastEnd]
        exact hrTokens
      · rw [hdrop, hr.lastEnd]
        exact hfaults

end ReadsOn

/-- Texts with the same tokens are read alike, if the line with the version is the same. -/
theorem sameResult_of_readsOn (h : ReadsOn text gs ls) (h' : ReadsOn text' gs' ls)
    (hheader : headerLine? text' = headerLine? text) :
    SameResult (.ofChars (unifyLineEndings text).1) (.ofChars (unifyLineEndings text').1) Eq
      (program (start text)) (program (start text')) := by
  have htokens := forall₂_sameToken (spelledIn_of_scan (unifyLineEndings text).1)
    (spelledIn_of_scan (unifyLineEndings text').1)
    (h'.unified.lexemes.trans h.unified.lexemes.symm)
  refine sameResult_program ⟨⟨rfl, rfl⟩, htokens⟩ fun r r' hr hfront hfront' => ?_
  obtain ⟨_, first, second, hfront⟩ := hfront
  obtain ⟨_, first', second', hfront'⟩ := hfront'
  obtain ⟨line, hline, hr₁, hbehind⟩ := h.line hfront
  obtain ⟨line', hline', hr₁', hbehind'⟩ := h'.line hfront'
  obtain rfl : line' = line := Option.some.inj (hline'.symm.trans (hheader.trans hline))
  refine ⟨hr₁'.trans hr₁.symm, ?_⟩
  rw [hbehind, hbehind']
  exact ⟨hr.source, List.forall₂_drop _ hr.tokens⟩

end Loader

namespace Program

/-- The texts load to the same program, or they fail in the same way but for the place. -/
def LoadsAlike (text text' : List Char) : Prop :=
  match (load text).1, (load text').1 with
  | .ok p, .ok q => q = p
  | .error e, .error e' => e.Alike e'
  | _, _ => False

variable {text text' : List Char}

/-- What keeps a text from loading that is faulty is its first fault. -/
theorem load_of_fault {d : Diagnostic} {ds : List Diagnostic}
    (h : (scan (unifyLineEndings text).1).2 = d :: ds) :
    (load text).1 = .error (Loader.errorAt (.ofChars (unifyLineEndings text).1)
      (.reported d.message) (d.span.getD default) none) := by
  rw [load]
  dsimp only
  rw [h]

/-- Texts that are broken off in the same string fail alike. -/
theorem loadsAlike_of_breaksAt {used : List Char}
    (h : BreaksAt 0 (unifyLineEndings text).1 used)
    (h' : BreaksAt 0 (unifyLineEndings text').1 used) : LoadsAlike text text' := by
  obtain ⟨before, back, faults, htext, hfaults⟩ := h.fault
  obtain ⟨before', back', faults', htext', hfaults'⟩ := h'.fault
  rw [Nat.zero_add] at hfaults hfaults'
  have hslice := Span.slice_after before used back
  have hslice' := Span.slice_after before' used back'
  rw [← htext] at hslice
  rw [← htext'] at hslice'
  rw [LoadsAlike, load_of_fault hfaults, load_of_fault hfaults']
  exact ⟨rfl, congrArg String.ofList (hslice'.trans hslice.symm), rfl⟩

/-- Texts without faults load alike if a program is read alike from their tokens. -/
theorem loadsAlike_of_clean (hclean : (scan (unifyLineEndings text).1).2 = [])
    (hclean' : (scan (unifyLineEndings text').1).2 = [])
    (h : Loader.SameResult (.ofChars (unifyLineEndings text).1)
      (.ofChars (unifyLineEndings text').1) Eq
      (Loader.program (Loader.start text)) (Loader.program (Loader.start text'))) :
    LoadsAlike text text' := by
  rw [LoadsAlike, load_of_clean hclean, load_of_clean hclean']
  cases hp : Loader.program (Loader.start text) <;>
    cases hq : Loader.program (Loader.start text') <;> rw [hp, hq] at h
  · exact h.1.symm
  · exact h.elim
  · exact h.elim
  · exact h

/-- Layout does not matter. Other gaps between the tokens of a text that is without faults change
neither their kinds nor their texts. The new text loads in the same way, if the line with the version
is kept and all gaps are blanks and comments also where a carriage return ends a comment. -/
theorem loadsAlike_of_relaid (hclean : (scan text).2 = []) (h : Relaid text text') :
    ((scan text').2 = [] ∧
      (scan text').1.map Token.lexeme = (scan text).1.map Token.lexeme) ∧
    (AreLayout ['\n', '\r'] (gaps text) → AreLayout ['\n', '\r'] (gaps text') →
      headerLine? text' = headerLine? text → LoadsAlike text text') := by
  have htext := exists_laidOut hclean
  have htext' := h.laidOut hclean
  refine ⟨⟨congrArg Prod.snd htext'.scan, htext'.lexemes⟩, fun hlayout hlayout' hheader => ?_⟩
  have hclean' : (scan text').2 = [] := congrArg Prod.snd htext'.scan
  cases hbroken : (lexemes text).findSome? brokenString? with
  | some used =>
    have hbreaks {cs : List Char} {gs : List (List Char)} (hclean : (scan cs).2 = [])
        (hcs : LaidOut cs gs (lexemes text)) (hlayout : AreLayout ['\n', '\r'] gs) :
        BreaksAt 0 (unifyLineEndings cs).1 used := by
      rw [unifyLineEndings_of_not_hasMark (not_hasMark_of_clean hclean), hcs.text]
      exact hcs.laid.breaksAt hlayout hbroken 0
    exact loadsAlike_of_breaksAt (hbreaks hclean htext hlayout) (hbreaks hclean' htext' hlayout')
  | none =>
    have hwhole := List.findSome?_eq_none_iff.mp hbroken
    have hreads : Loader.ReadsOn text _ _ := ⟨htext, hlayout, hwhole⟩
    have hreads' : Loader.ReadsOn text' _ _ := ⟨htext', hlayout', hwhole⟩
    exact loadsAlike_of_clean hreads.clean hreads'.clean
      (Loader.sameResult_of_readsOn hreads hreads' hheader)

/-- Comments and other line endings between the tokens of a header. -/
theorem loadsAlike_of_relaid_header :
    let text := "surface\nAQSIS_V 1.0\nUSES 0".toList
    let text' := "# a\r\nsurface\r\nAQSIS_V 1.0\nUSES#b\n\t0\n".toList
    (scan text).2 = [] ∧ Relaid text text' ∧ AreLayout ['\n', '\r'] (gaps text) ∧
      AreLayout ['\n', '\r'] (gaps text') ∧ headerLine? text' = headerLine? text ∧
      ((scan text').2 = [] ∧
        (scan text').1.map Token.lexeme = (scan text).1.map Token.lexeme) ∧
      LoadsAlike text text' := by
  intro text text'
  have hclean : (scan text).2 = [] := by decide +kernel
  have hgaps : gaps text = [[], ['\n'], [' '], ['\n'], [' '], []] := by decide +kernel
  have hgaps' : gaps text' =
      ["# a\r\n".toList, ['\r', '\n'], [' '], ['\n'], "#b\n\t".toList, ['\n']] := by
    decide +kernel
  have hblank {ends : List Char} {c : Char} (hc : isBlank c) : IsLayout ends [c] := .blank hc .nil
  have hfront : IsLayout ['\n'] "# a\r\n".toList :=
    @IsLayout.comment _ [' ', 'a', '\r'] [] '\n' (by simp) (by decide) .nil
  have hfront' : IsLayout ['\n', '\r'] "# a\r\n".toList :=
    @IsLayout.comment _ [' ', 'a'] ['\n'] '\r' (by simp) (by decide) (hblank rfl)
  have hcomment {ends : List Char} (hends : 'b' ∉ ends ∧ '\n' ∈ ends) :
      IsLayout ends "#b\n\t".toList :=
    @IsLayout.comment _ ['b'] ['\t'] '\n' (by simpa using hends.1) hends.2 (hblank rfl)
  have hrelaid : Relaid text text' := by
    refine ⟨gaps text', ?_, by decide +kernel⟩
    rw [hgaps, hgaps']
    refine .cons (.inr ⟨by decide, hfront⟩) (.cons (.inr ⟨by decide, .blank rfl (hblank rfl)⟩) ?_)
    refine .cons (.inl rfl) (.cons (.inl rfl) (.cons (.inr ⟨by decide, hcomment (by decide)⟩) ?_))
    exact .cons (.inr ⟨by decide, hblank rfl⟩) .nil
  have hlayout : AreLayout ['\n', '\r'] (gaps text) := by
    rw [hgaps]
    refine .cons .nil (.cons (hblank rfl) (.cons (hblank rfl) ?_))
    exact .cons (hblank rfl) (.cons (hblank rfl) (.last .nil))
  have hlayout' : AreLayout ['\n', '\r'] (gaps text') := by
    rw [hgaps']
    refine .cons hfront' (.cons (.blank rfl (hblank rfl)) (.cons (hblank rfl) ?_))
    exact .cons (hblank rfl) (.cons (hcomment (by decide)) (.last (hblank rfl)))
  have hheader : headerLine? text' = headerLine? text := by decide +kernel
  have hwhole := loadsAlike_of_relaid hclean hrelaid
  exact ⟨hclean, hrelaid, hlayout, hlayout', hheader, hwhole.1, hwhole.2 hlayout hlayout' hheader⟩

/-- A carriage return ends a comment when the text is loaded, and not when it is scanned as it
stands: the rest of the comment is read. -/
theorem not_loadsAlike_return_in_comment :
    let text := "surface\nAQSIS_V 1.0\nUSES 0".toList
    let text' := "surface\nAQSIS_V 1.0\nUSES # a\rb\n0".toList
    (scan text).2 = [] ∧ Relaid text text' ∧ headerLine? text' = headerLine? text ∧
      ¬LoadsAlike text text' := by
  intro text text'
  have hgaps : gaps text = [[], ['\n'], [' '], ['\n'], [' '], []] := by decide +kernel
  have hgaps' : gaps text' = [[], ['\n'], [' '], ['\n'], " # a\rb\n".toList, []] := by
    decide +kernel
  have hcomment : IsLayout ['\n'] " # a\rb\n".toList :=
    .blank rfl (@IsLayout.comment _ [' ', 'a', '\r', 'b'] [] '\n' (by simp) (by decide) .nil)
  have hloads : refusal? text = none := by decide +kernel
  have hfails : refusal? text' =
      some ⟨.expectedToken "USES bit-mask", "b", ⟨29, 30⟩, 4, 1, none⟩ := by decide +kernel
  refine ⟨by decide +kernel, ⟨gaps text', ?_, by decide +kernel⟩, by decide +kernel, fun h => ?_⟩
  · rw [hgaps, hgaps']
    refine .cons (.inl rfl) (.cons (.inl rfl) (.cons (.inl rfl) (.cons (.inl rfl) ?_)))
    exact .cons (.inr ⟨by decide, hcomment⟩) (.cons (.inl rfl) .nil)
  · rw [LoadsAlike, load_of_refusal? hfails] at h
    unfold refusal? at hloads
    cases hp : (load text).1 with
    | ok p =>
      rw [hp] at h
      exact h
    | error e =>
      rw [hp] at hloads
      cases hloads

end Program

end ShadingMachine
