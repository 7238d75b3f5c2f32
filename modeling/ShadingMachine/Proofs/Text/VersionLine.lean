import ShadingMachine.Proofs.Text.Offsets
import ShadingMachine.Proofs.Text.OnLine
import ShadingMachine.Proofs.Text.UnifiedLayout

/-! The place of the version in a text. It is the rest of the line behind the second token, so that
a text has a front that ends with this token, that line, and what is behind it. -/
namespace ShadingMachine.Text

/-- A text with its version on `line`. The front is a token and the word for versions, with nothing
behind it; no version is empty. -/
structure VersionAt (text front line rest : List Char) : Prop where
  text : text = front ++ (line ++ rest)
  clean : (scan (unifyLineEndings front).1).2 = []
  lexemes : ∃ l, lexemes (unifyLineEndings front).1 =
    [l, (.word, "AQSIS_V"), (.endOfInput, "")]
  gaps : (gaps (unifyLineEndings front).1).getLast? = some []
  word : EndsName line
  nonempty : line ≠ []
  oneLine : '\n' ∉ line ∧ '\r' ∉ line
  rest : ∀ c ∈ rest.head?, c = '\n' ∨ c = '\r'

variable {a b text front back line rest cs : List Char} {gs : List (List Char)} {l : Lexeme}
  {ls : List Lexeme} {w : String}

/-! Two parts of a text -/

theorem unifyLineEndings_append (hne : front ≠ []) (h : back.head? ≠ some '\n') :
    (unifyLineEndings (front ++ back)).1 = (unifyLineEndings front).1 ++ unified back := by
  by_cases hmark : HasMark front
  · obtain ⟨front, rfl⟩ := List.head?_eq_some_iff.mp hmark
    rw [List.cons_append, unifyLineEndings_mark, unifyLineEndings_mark, unified_append_of (.inl h)]
  · have hwhole : ¬HasMark (front ++ back) := by
      rwa [HasMark, List.head?_append_of_ne_nil _ hne]
    rw [unifyLineEndings_of_not_hasMark hmark, unifyLineEndings_of_not_hasMark hwhole,
      unified_append_of (.inl h)]

/-- What the line endings are made alike to comes from two parts of the text, wherever it is cut. -/
theorem exists_unified_append (h : unified cs = a ++ b) :
    ∃ front back, cs = front ++ back ∧ unified front = a ∧ unified back = b := by
  fun_induction unified cs generalizing a with
  | case1 =>
    obtain ⟨rfl, rfl⟩ := List.append_eq_nil_iff.mp h.symm
    exact ⟨[], [], rfl, rfl, rfl⟩
  | case2 cs ih =>
    cases a with
    | nil => exact ⟨[], '\r' :: '\n' :: cs, rfl, rfl, h⟩
    | cons c a =>
      obtain ⟨rfl, hcs⟩ := List.cons.inj h
      obtain ⟨front, back, rfl, rfl, rfl⟩ := ih hcs
      exact ⟨'\r' :: '\n' :: front, back, rfl, rfl, rfl⟩
  | case3 cs hlf ih =>
    cases a with
    | nil => exact ⟨[], '\r' :: cs, rfl, rfl, (unified.eq_3 cs hlf).trans h⟩
    | cons c a =>
      obtain ⟨rfl, hcs⟩ := List.cons.inj h
      obtain ⟨front, back, rfl, rfl, rfl⟩ := ih hcs
      refine ⟨'\r' :: front, back, rfl, unified.eq_3 front fun rest hrest => ?_, rfl⟩
      exact hlf (rest ++ back) (by rw [hrest, List.cons_append])
  | case4 c cs hcrlf hcr ih =>
    cases a with
    | nil => exact ⟨[], c :: cs, rfl, rfl, (unified_cons hcr cs).trans h⟩
    | cons d a =>
      obtain ⟨rfl, hcs⟩ := List.cons.inj h
      obtain ⟨front, back, rfl, rfl, rfl⟩ := ih hcs
      exact ⟨c :: front, back, rfl, unified_cons hcr front, rfl⟩

theorem exists_unifyLineEndings_append (h : (unifyLineEndings text).1 = a ++ b) :
    ∃ front back, text = front ++ back ∧ (unifyLineEndings front).1 = a ∧ unified back = b := by
  by_cases hmark : HasMark text
  · obtain ⟨text, rfl⟩ := List.head?_eq_some_iff.mp hmark
    rw [unifyLineEndings_mark] at h
    obtain ⟨front, back, rfl, hfront, hback⟩ := exists_unified_append h
    exact ⟨'\ufeff' :: front, back, rfl, by rw [unifyLineEndings_mark, hfront], hback⟩
  · rw [unifyLineEndings_of_not_hasMark hmark] at h
    obtain ⟨front, back, rfl, hfront, hback⟩ := exists_unified_append h
    refine ⟨front, back, rfl, ?_, hback⟩
    cases front with
    | nil => exact hfront
    | cons c front =>
      rw [unifyLineEndings_of_not_hasMark (by simpa [HasMark] using hmark), hfront]

/-! The front -/

/-- A word stands before whatever does not go on with it. -/
theorem Stands.of_endsName (h : Stands (.word, w) rest) (hback : EndsName back) :
    Stands (.word, w) back := by
  have hspells := h.spells
  generalize hcs : w.toList = cs at hspells
  cases hspells with
  | @word c cs hc hall =>
    obtain ⟨htake, hdrop⟩ := takeWhile_append_of_head (List.all_eq_true.mp hall) hback
    exact ⟨c, cs, hcs, by rw [piece_of_isNameStart hc, htake, hdrop]⟩

theorem Stands.endsName (h : Stands (.word, w) rest) : EndsName rest := by
  obtain ⟨c, used, hl, hpiece⟩ := h
  have hend := isPiece_piece c (used ++ rest)
  rw [hpiece] at hend
  cases hend with
  | token _ _ hmaximal => exact hmaximal (.inl rfl)

/-- A text is cut behind its second token. -/
theorem LaidOut.upToSecond (h : LaidOut text (a :: b :: gs) (l :: (.word, w) :: ls)) :
    (∃ front, text = front ++ layOut gs ls ∧
      LaidOut front [a, b, []] [l, (.word, w), (.endOfInput, "")]) ∧ EndsName (layOut gs ls) := by
  cases h.laid with
  | token hl hlaid =>
    cases hlaid with
    | token hw hlaid =>
      obtain ⟨ha, hlayout⟩ := h.layout.uncons
      have hb : IsLayout ['\n'] b := by
        cases hlaid <;> exact hlayout.uncons.1
      have hw' : Stands (.word, w) [] := hw.of_endsName fun x hx => by cases hx
      have hl' := hl.of_follows ((Follows.of_ne_nil hw.ne_nil _ []).append b)
      refine ⟨⟨layOut [a, b, []] [l, (.word, w), (.endOfInput, "")], ?_, rfl, ?_, ?_⟩, hw.endsName⟩
      · rw [h.text]
        simp [layOut]
      · refine .token ?_ (.token hw' .last)
        simpa [layOut] using hl'
      · exact .cons ha (.cons hb (.last .nil))

/-- Before a text that does not go on with the word, the front is scanned to its two tokens. -/
theorem LaidOut.scans_front (h : LaidOut front [a, b, []] [l, (.word, w), (.endOfInput, "")]) :
    ∃ first second, second.lexeme = (.word, w) ∧ second.span.stop = byteSize front ∧
      ∀ back, EndsName back → Scans 0 front [first, second] back := by
  have hfront : front = a ++ (l.2.toList ++ (b ++ w.toList)) := by
    rw [h.text]
    simp [layOut]
  cases h.laid with
  | token hl hlaid =>
    cases hlaid with
    | token hw _ =>
      obtain ⟨ha, hlayout⟩ := h.layout.uncons
      have hb := hlayout.uncons.1
      let start := 0 + byteSize a
      let start' := start + byteSize l.2.toList + byteSize b
      refine ⟨⟨l.1, l.2, ⟨start, start + byteSize l.2.toList⟩⟩,
        ⟨.word, w, ⟨start', start' + byteSize w.toList⟩⟩, rfl, ?_, fun back hback => ?_⟩
      · simp [hfront, start', start, byteSize_append, Nat.add_assoc]
      · have hl' : Stands l (b ++ w.toList ++ back) := by
          rw [List.append_assoc]
          exact hl.of_follows ((Follows.of_ne_nil hw.ne_nil _ back).append b)
        have hscans := (ha.scans 0 _).append ((hl'.scans start).append
          ((hb.scans _ _).append ((hw.of_endsName hback).scans start')))
        rw [hfront]
        exact hscans

/-! The place of the version -/

theorem endsName_of_unified (h : EndsName (unified cs)) : EndsName cs := by
  cases cs with
  | nil => exact h
  | cons c cs =>
    intro x hx
    obtain rfl := Option.some.inj hx
    by_cases hcr : c = '\r'
    · rw [hcr]
      decide
    · rw [unified_cons hcr] at h
      have hc := h _ rfl
      unfold plainChar at hc
      split at hc
      · rename_i hnul
        rw [hnul]
        decide
      · exact hc

theorem endsName_of_append (h : EndsName (a ++ b)) : EndsName a := by
  cases a with
  | nil => exact fun x hx => by cases hx
  | cons c a => exact h

/-- The text is scanned up to its version, whatever this is. -/
theorem VersionAt.scans_front (h : VersionAt text front line rest) :
    ∃ first second, second.lexeme = (.word, "AQSIS_V") ∧
      second.span.stop = byteSize (unifyLineEndings front).1 ∧
      ∀ back, EndsName back → Scans 0 (unifyLineEndings front).1 [first, second] back := by
  obtain ⟨l, hlexemes⟩ := h.lexemes
  have hgaps := h.gaps
  have hlaid := exists_laidOut h.clean
  rw [hlexemes] at hlaid
  generalize Text.gaps (unifyLineEndings front).1 = gs at hgaps hlaid
  cases hlaid.laid with
  | token _ hls =>
    cases hls with
    | token _ hls =>
      cases hls with
      | token _ hls => cases hls
      | last =>
        obtain rfl := Option.some.inj hgaps
        exact hlaid.scans_front

/-- A text is cut behind its first line. -/
theorem exists_line_append (cs : List Char) : ∃ line rest, cs = line ++ rest ∧
    ('\n' ∉ line ∧ '\r' ∉ line) ∧ (∀ c ∈ rest.head?, c = '\n' ∨ c = '\r') ∧
      (cs.takeWhile (· != '\n')).takeWhile (· != '\r') = line := by
  let onLine (c : Char) : Bool := decide ((c != '\r') = true ∧ (c != '\n') = true)
  have honLine : ∀ c ∈ cs.takeWhile onLine, c ≠ '\n' ∧ c ≠ '\r' := fun c hc => by
    simpa [onLine, and_comm] using List.mem_takeWhile_imp hc
  refine ⟨cs.takeWhile onLine, cs.dropWhile onLine, List.takeWhile_append_dropWhile.symm,
    ⟨fun h => (honLine _ h).1 rfl, fun h => (honLine _ h).2 rfl⟩, fun c hc => ?_, ?_⟩
  · have hends := head_dropWhile onLine cs c hc
    simp only [onLine, decide_eq_false_iff_not, bne_iff_ne] at hends
    tauto
  · rw [List.takeWhile_takeWhile]

/-- A text whose second token is the word has a version, if there is anything on the line. -/
theorem exists_versionAt {first second : Token} {ts : List Token}
    (hclean : (scan (unifyLineEndings text).1).2 = [])
    (htokens : (scan (unifyLineEndings text).1).1 = first :: second :: ts)
    (hsecond : second.lexeme = (.word, "AQSIS_V"))
    (hline : (dropBytes second.span.stop (unifyLineEndings text).1).takeWhile (· != '\n') ≠ []) :
    ∃ front line rest, VersionAt text front line rest := by
  have hlaid := exists_laidOut hclean
  rw [lexemes, htokens, List.map_cons, List.map_cons, hsecond] at hlaid
  generalize gaps (unifyLineEndings text).1 = gs at hlaid
  generalize first.lexeme = l at hlaid
  obtain ⟨a, b, gs, rfl⟩ : ∃ a b gs', gs = a :: b :: gs' := by
    cases hlaid.laid with
    | token _ hlaid =>
      cases hlaid with
      | token _ _ => exact ⟨_, _, _, rfl⟩
  obtain ⟨⟨A, hcut, hfront⟩, hword⟩ := hlaid.upToSecond
  obtain ⟨front, back, rfl, rfl, hback⟩ := exists_unifyLineEndings_append hcut
  rw [← hback] at hcut hword
  obtain ⟨first', second', -, hstop, hscans⟩ := hfront.scans_front
  have heq := congrArg Prod.fst (hscans _ hword).eq
  rw [← hcut] at heq
  obtain ⟨-, hsame⟩ := List.cons.inj (htokens.symm.trans heq)
  obtain ⟨rfl, -⟩ := List.cons.inj hsame
  rw [hcut, hstop, dropBytes_byteSize_append, takeWhile_unified] at hline
  have hwhole := endsName_of_unified hword
  obtain ⟨line, rest, rfl, honeLine, hrest, hfirst⟩ := exists_line_append back
  rw [hfirst] at hline
  exact ⟨front, line, rest, {
    text := rfl
    clean := congrArg Prod.snd hfront.scan
    lexemes := ⟨l, hfront.lexemes⟩
    gaps := congrArg List.getLast? hfront.gaps
    word := endsName_of_append hwhole
    nonempty := fun hnil => hline (congrArg (List.map plainChar) hnil)
    oneLine := honeLine
    rest := hrest }⟩

end ShadingMachine.Text
