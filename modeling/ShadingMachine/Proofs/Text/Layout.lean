import ShadingMachine.Proofs.Text.Following
import ShadingMachine.Proofs.Text.Tiling

/-! The layout of a text: what stands between its tokens. A text without faults is its tokens with
gaps in front of them, and with other gaps it is scanned to the same tokens. -/
namespace ShadingMachine.Text

/-- Blanks, and comments with what ends them. -/
inductive IsLayout (ends : List Char) : List Char → Prop
  | nil : IsLayout ends []
  | blank {c : Char} {cs : List Char} : isBlank c → IsLayout ends cs → IsLayout ends (c :: cs)
  | comment {line cs : List Char} {e : Char} : (∀ c ∈ line, c ∉ ends) → e ∈ ends →
    IsLayout ends cs → IsLayout ends ('#' :: (line ++ e :: cs))

/-- The gaps of a whole text: nothing needs to end a comment at its end. -/
inductive AreLayout (ends : List Char) : List (List Char) → Prop
  | last {gap : List Char} : IsLayout ends gap → AreLayout ends [gap]
  | unended {gap line : List Char} : IsLayout ends gap → (∀ c ∈ line, c ∉ ends) →
    AreLayout ends [gap ++ '#' :: line]
  | cons {gap : List Char} {gaps : List (List Char)} : IsLayout ends gap → AreLayout ends gaps →
    AreLayout ends (gap :: gaps)

def gapsFrom (text : List Char) : Nat → List Token → List (List Char)
  | _, [] => []
  | start, t :: ts =>
    (Source.ofChars text).slice ⟨start, t.span.start⟩ :: gapsFrom text t.span.stop ts

/-- What stands in front of each token of a text; the last of them is its end. -/
def gaps (text : List Char) : List (List Char) := gapsFrom text 0 (scan text).1

def lexemes (text : List Char) : List Lexeme := (scan text).1.map Token.lexeme

/-- Tokens with gaps in front of them. -/
def layOut : List (List Char) → List Lexeme → List Char
  | gap :: gaps, l :: ls => gap ++ (l.2.toList ++ layOut gaps ls)
  | _, _ => []

/-- A gap is kept, or blanks and comments stand in its place. -/
def Relays (gap gap' : List Char) : Prop := gap' = gap ∨ gap' ≠ [] ∧ IsLayout ['\n'] gap'

/-- The text is laid out anew: its tokens stand behind other gaps. -/
def Relaid (text text' : List Char) : Prop :=
  ∃ gaps', List.Forall₂ Relays (gaps text) gaps' ∧ text' = layOut gaps' (lexemes text)

variable {c : Char} {cs used rest gap gap' ends : List Char} {gs gs' : List (List Char)}
  {l : Lexeme} {ls : List Lexeme} {pos : Nat}

/-! Blanks and comments -/

theorem isSeparator_of_isBlank (h : isBlank c = true) : IsSeparator c := by
  have hrange : c.toNat < 43 ∨ 122 < c.toNat := by
    simp only [isBlank, Bool.or_eq_true, Bool.and_eq_true, decide_eq_true_eq, beq_iff_eq] at h
    omega
  have hpart : isNamePart c = false := by
    by_contra hpart
    rw [Bool.not_eq_false, isNamePart, Bool.or_eq_true] at hpart
    rcases hpart with hc | hc
    · have := toNat_of_isNameStart hc
      omega
    · have := toNat_of_isDigit hc
      omega
  have hne {d : Char} (hd : 43 ≤ d.toNat ∧ d.toNat ≤ 122) : c ≠ d := by
    rintro rfl
    omega
  exact ⟨hpart, hne (by decide), hne (by decide), hne (by decide)⟩

theorem piece_blank (hc : isBlank c = true) (cs : List Char) : piece c cs = (.gap, [c], cs) := by
  simp [piece, hc]

theorem IsLayout.isSeparator_head (h : IsLayout ends cs) : ∀ x ∈ cs.head?, IsSeparator x := by
  intro x hx
  cases h with
  | nil => cases hx
  | blank hc =>
    cases hx
    exact isSeparator_of_isBlank hc
  | comment =>
    cases hx
    decide

/-- A comment is read up to its newline. -/
theorem scans_comment {line : List Char} (hline : '\n' ∉ line) (hrest : EndsLine rest) (pos : Nat) :
    Scans pos ('#' :: line) [] rest := by
  refine scans_gap ?_
  have hpos : ∀ c ∈ line, (c != '\n') = true := fun c hc => by
    simpa using fun h : c = '\n' => hline (h ▸ hc)
  have hhead : ∀ x ∈ rest.head?, (x != '\n') = false := fun x hx => by
    rw [hrest x hx]
    rfl
  obtain ⟨htake, hdrop⟩ := takeWhile_append_of_head hpos hhead
  rw [piece_comment, htake, hdrop]

theorem notMem_of_forall {line : List Char} (h : ∀ c ∈ line, c ∉ ['\n']) : '\n' ∉ line :=
  fun hmem => h '\n' hmem List.mem_cons_self

/-- Nothing is read of a layout. -/
theorem IsLayout.scans (h : IsLayout ['\n'] gap) (pos : Nat) (rest : List Char) :
    Scans pos gap [] rest := by
  induction h generalizing pos with
  | nil => exact scans_nil pos rest
  | blank hc _ ih => exact scans_gap_cons rfl (piece_blank hc _) (ih _)
  | @comment line cs e hline he _ ih =>
    obtain rfl := List.mem_singleton.mp he
    have hnewline : isBlank '\n' = true := by decide
    have hends : EndsLine ('\n' :: (cs ++ rest)) := fun x hx => (Option.some.inj hx).symm
    have hfront := scans_comment (notMem_of_forall hline) hends pos
    exact hfront.append (scans_gap_cons rfl (piece_blank hnewline _) (ih _))

theorem IsLayout.scans_unended {line : List Char} (h : IsLayout ['\n'] gap)
    (hline : ∀ c ∈ line, c ∉ ['\n']) (pos : Nat) : Scans pos (gap ++ '#' :: line) [] [] :=
  (h.scans pos _).append
    (scans_comment (notMem_of_forall hline) (fun x hx => by cases hx) _)

/-- A gap in front of the others, and a blank in front of it. -/
theorem AreLayout.blank (hc : isBlank c = true) (h : AreLayout ends (gap :: gs)) :
    AreLayout ends ((c :: gap) :: gs) := by
  cases h with
  | last h => exact .last (.blank hc h)
  | unended h hline => exact .unended (.blank hc h) hline
  | cons h hs => exact .cons (.blank hc h) hs

theorem AreLayout.uncons (h : AreLayout ends (gap :: gap' :: gs)) :
    IsLayout ends gap ∧ AreLayout ends (gap' :: gs) := by
  cases h with
  | cons hgap h => exact ⟨hgap, h⟩

theorem IsLayout.tail (h : IsLayout ends ('\n' :: cs)) : IsLayout ends cs := by
  cases h with
  | blank _ h => exact h

theorem AreLayout.comment {line : List Char} (hline : ∀ c ∈ line, c ∉ ['\n'])
    (h : AreLayout ['\n'] (('\n' :: gap) :: gs)) :
    AreLayout ['\n'] (('#' :: (line ++ '\n' :: gap)) :: gs) := by
  have hcomment {cs : List Char} (h : IsLayout ['\n'] ('\n' :: cs)) :
      IsLayout ['\n'] ('#' :: (line ++ '\n' :: cs)) :=
    .comment hline List.mem_cons_self h.tail
  generalize hgap : '\n' :: gap = gap' at h
  cases h with
  | last h =>
    subst hgap
    exact .last (hcomment h)
  | @unended front back h hback =>
    cases front with
    | nil => cases hgap
    | cons c front =>
      obtain ⟨rfl, rfl⟩ := List.cons.inj hgap
      have hwhole := AreLayout.unended (hcomment h) hback
      rwa [List.cons_append, List.append_assoc] at hwhole
  | cons h hs =>
    subst hgap
    exact .cons (hcomment h) hs

/-! Tokens behind their gaps -/

/-- The token is read where the text goes on like this. -/
def Stands (l : Lexeme) (rest : List Char) : Prop :=
  ∃ c used, l.2.toList = c :: used ∧ piece c (used ++ rest) = (.token l.1, c :: used, rest)

/-- Each token is read where it stands, up to the end of the text. -/
inductive Laid : List (List Char) → List Lexeme → Prop
  | last {gap : List Char} : Laid [gap] [(.endOfInput, "")]
  | token {gap : List Char} {gs : List (List Char)} {l : Lexeme} {ls : List Lexeme} :
    Stands l (layOut gs ls) → Laid gs ls → Laid (gap :: gs) (l :: ls)

theorem Stands.of_follows {rest' : List Char} (h : Stands l rest) (hrest : Follows rest rest') :
    Stands l rest' := by
  obtain ⟨c, used, hl, hpiece⟩ := h
  exact ⟨c, used, hl, piece_of_follows hpiece hrest⟩

theorem Stands.scans (h : Stands l rest) (pos : Nat) :
    Scans pos l.2.toList [⟨l.1, l.2, ⟨pos, pos + byteSize l.2.toList⟩⟩] rest := by
  obtain ⟨c, used, hl, hpiece⟩ := h
  have hscans : Scans pos (c :: used) _ rest := scans_token hpiece
  rwa [← hl, String.ofList_toList] at hscans

/-- No token begins with a blank. -/
theorem Stands.isBlank_head (h : Stands l rest) (hl : l.2.toList = c :: cs) : isBlank c = false := by
  obtain ⟨d, used, hd, hpiece⟩ := h
  obtain ⟨rfl, rfl⟩ := List.cons.inj (hl.symm.trans hd)
  by_contra hblank
  rw [piece_blank (Bool.not_eq_false _ ▸ hblank)] at hpiece
  cases hpiece

/-- What stands in front of the gaps is put in front of the first of them. -/
theorem Laid.prepend (h : Laid (gap :: gs) ls) (cs : List Char) : Laid ((cs ++ gap) :: gs) ls := by
  cases h with
  | last => exact .last
  | token hstands h => exact .token hstands h

theorem Laid.layOut_prepend (h : Laid (gap :: gs) ls) (cs : List Char) :
    layOut ((cs ++ gap) :: gs) ls = cs ++ layOut (gap :: gs) ls := by
  cases h <;> simp [layOut]

/-- A newline that the text begins with is in the first gap. -/
theorem Laid.exists_gap (h : Laid (gap :: gs) ls) (hrest : layOut (gap :: gs) ls = '\n' :: rest) :
    ∃ gap', gap = '\n' :: gap' := by
  cases gap with
  | cons c gap =>
    have hc : c = '\n' := by
      cases h <;> exact (List.cons.inj hrest).1
    exact ⟨gap, by rw [hc]⟩
  | nil =>
    cases h with
    | last => cases hrest
    | token hstands h =>
      obtain ⟨c, used, hl, hpiece⟩ := id hstands
      have hblank := hstands.isBlank_head hl
      rw [layOut, List.nil_append, hl] at hrest
      obtain ⟨rfl, -⟩ := List.cons.inj hrest
      cases hblank

theorem exists_piece (c : Char) (cs : List Char) :
    ∃ used, (piece c cs).2.1 = c :: used ∧ used ++ (piece c cs).2.2 = cs := by
  have happend := piece_append c cs
  obtain ⟨d, used, hused⟩ := List.exists_cons_of_ne_nil (piece_used_ne_nil c cs)
  rw [hused] at happend ⊢
  obtain ⟨rfl, happend⟩ := List.cons.inj happend
  exact ⟨used, rfl, happend⟩

theorem stands_piece {kind : TokenKind} (hkind : (piece c cs).1 = .token kind) :
    Stands (kind, String.ofList (piece c cs).2.1) (piece c cs).2.2 := by
  obtain ⟨used, hused, happend⟩ := exists_piece c cs
  refine ⟨c, used, ?_, ?_⟩
  · rw [String.toList_ofList, hused]
  · rw [happend, ← hused, ← hkind]

/-- A blank or a comment in front of a text that is laid out. -/
theorem AreLayout.behind (hgap : IsGap (layOut (gap :: gs) ls) used)
    (h : AreLayout ['\n'] (gap :: gs)) (hlaid : Laid (gap :: gs) ls) :
    AreLayout ['\n'] ((used ++ gap) :: gs) := by
  cases hgap with
  | blank hc => exact h.blank hc
  | @comment line hline hrest =>
    have hline : ∀ c ∈ line, c ∉ ['\n'] := fun c hc hmem =>
      hline (List.mem_singleton.mp hmem ▸ hc)
    cases hcs : layOut (gap :: gs) ls with
    | cons x cs =>
      rw [hcs] at hrest
      rw [hrest x rfl] at hcs
      obtain ⟨gap', rfl⟩ := hlaid.exists_gap hcs
      exact h.comment hline
    | nil =>
      cases hlaid with
      | last =>
        obtain rfl : gap = [] := (List.append_eq_nil_iff.mp hcs).1
        rw [List.append_nil]
        exact .unended .nil hline
      | token hstands =>
        obtain ⟨c, used, hl, -⟩ := hstands
        rw [layOut, hl] at hcs
        simp at hcs

/-- A text without faults is tokens behind gaps. -/
theorem exists_laid (cs : List Char) (hclean : (scanFrom pos cs).2 = []) :
    ∃ gs, AreLayout ['\n'] gs ∧ Laid gs ((scanFrom pos cs).1.map Token.lexeme) ∧
      layOut gs ((scanFrom pos cs).1.map Token.lexeme) = cs := by
  fun_induction scanFrom pos cs with
  | case1 pos => exact ⟨[[]], .last .nil, .last, rfl⟩
  | case2 pos c cs next tokens faults hnext kind hkind ih =>
    obtain ⟨gs, hlayout, hlaid, hcs⟩ := ih (hnext ▸ hclean)
    rw [hnext] at hlaid hcs
    have hstands := stands_piece hkind
    rw [← hcs] at hstands
    refine ⟨[] :: gs, .cons .nil hlayout, .token hstands hlaid, ?_⟩
    show [] ++ ((String.ofList (piece c cs).2.1).toList ++ _) = _
    rw [hcs, String.toList_ofList, List.nil_append, piece_append]
  | case3 => cases hclean
  | case4 pos c cs next tokens faults hnext hkind ih =>
    obtain ⟨gs, hlayout, hlaid, hcs⟩ := ih (hnext ▸ hclean)
    rw [hnext] at hlaid hcs
    cases gs with
    | nil => cases hlayout
    | cons gap gs =>
      have hgap := isPiece_piece c cs
      rw [hkind, ← hcs] at hgap
      cases hgap with
      | gap hgap =>
        refine ⟨((piece c cs).2.1 ++ gap) :: gs, hlayout.behind hgap hlaid, hlaid.prepend _, ?_⟩
        rw [hlaid.layOut_prepend, hcs, piece_append]

/-- The tokens where they stand. -/
def tokensFrom : Nat → List (List Char) → List Lexeme → List Token
  | pos, gap :: gs, l :: ls =>
    let start := pos + byteSize gap
    let stop := start + byteSize l.2.toList
    ⟨l.1, l.2, ⟨start, stop⟩⟩ :: tokensFrom stop gs ls
  | _, _, _ => []

/-- A text that is laid out is scanned to its tokens. -/
theorem Laid.scanFrom (h : Laid gs ls) (hlayout : AreLayout ['\n'] gs) (pos : Nat) :
    scanFrom pos (layOut gs ls) = (tokensFrom pos gs ls, []) := by
  induction h generalizing pos with
  | @last gap =>
    have hscans : Scans pos gap [] [] := by
      cases hlayout with
      | last hgap => exact hgap.scans pos []
      | unended hgap hline => exact hgap.scans_unended hline pos
      | cons _ hnil => cases hnil
    have heq := hscans.eq
    rw [Text.scanFrom] at heq
    exact heq
  | @token gap gs l ls hstands h ih =>
    cases hlayout with
    | last => cases h
    | unended => cases h
    | cons hgap hlayout =>
      have hfront := (hgap.scans pos _).append (hstands.scans (pos + byteSize gap))
      have heq := hfront.eq
      rw [List.append_assoc, byteSize_append, ← Nat.add_assoc, ih hlayout] at heq
      exact heq

theorem map_lexeme_tokensFrom (h : Laid gs ls) (pos : Nat) :
    (tokensFrom pos gs ls).map Token.lexeme = ls := by
  induction h generalizing pos with
  | last => rfl
  | token _ _ ih => exact congrArg (_ :: ·) (ih _)

/-- Between the tokens stand the gaps. -/
theorem gapsFrom_tokensFrom (h : Laid gs ls) (before : List Char) :
    gapsFrom (before ++ layOut gs ls) (byteSize before) (tokensFrom (byteSize before) gs ls) =
      gs := by
  induction h generalizing before with
  | @last gap =>
    have hslice := Span.slice_after before gap []
    exact congrArg (· :: []) hslice
  | @token gap gs l ls hstands h ih =>
    have hslice := Span.slice_after before gap (l.2.toList ++ layOut gs ls)
    have hrest := ih (before ++ (gap ++ l.2.toList))
    rw [byteSize_append, byteSize_append, ← Nat.add_assoc, List.append_assoc,
      List.append_assoc] at hrest
    exact congrArg₂ List.cons hslice hrest

/-- The text is these tokens behind these gaps, and it is scanned to them. -/
structure LaidOut (text : List Char) (gs : List (List Char)) (ls : List Lexeme) : Prop where
  text : text = layOut gs ls
  laid : Laid gs ls
  layout : AreLayout ['\n'] gs

namespace LaidOut

variable {text : List Char} (h : LaidOut text gs ls)
include h

theorem scan : scan text = (tokensFrom 0 gs ls, []) := by
  rw [h.text]
  exact h.laid.scanFrom h.layout 0

theorem lexemes : lexemes text = ls := by
  rw [Text.lexemes, h.scan]
  exact map_lexeme_tokensFrom h.laid 0

theorem gaps : gaps text = gs := by
  rw [Text.gaps, h.scan, h.text]
  exact gapsFrom_tokensFrom h.laid []

end LaidOut

theorem exists_laidOut {text : List Char} (h : (scan text).2 = []) :
    LaidOut text (gaps text) (lexemes text) := by
  obtain ⟨gs, hlayout, hlaid, htext⟩ := exists_laid text h
  have hwhole : LaidOut text gs (lexemes text) := ⟨htext.symm, hlaid, hlayout⟩
  rw [← hwhole.gaps] at hwhole
  exact hwhole

/-! Other gaps -/

theorem Follows.of_ne_nil (hcs : cs ≠ []) (rest rest' : List Char) :
    Follows (cs ++ rest) (cs ++ rest') := by
  obtain ⟨c, cs, rfl⟩ := List.exists_cons_of_ne_nil hcs
  exact fun x hx => .inl hx

theorem Stands.ne_nil (h : Stands l rest) : l.2.toList ≠ [] := by
  obtain ⟨c, used, hl, -⟩ := h
  rw [hl]
  exact List.cons_ne_nil c used

/-- A token may be followed by the text with other gaps. -/
theorem Laid.follows (h : Laid gs ls) (hgaps : List.Forall₂ Relays gs gs') :
    Follows (layOut gs ls) (layOut gs' ls) := by
  cases hgaps with
  | nil => exact Follows.refl _
  | @cons gap gap' gs gs' hgap hgaps =>
    rcases hgap with rfl | ⟨hne, hgap⟩
    · cases h with
      | last =>
        cases hgaps
        exact Follows.refl _
      | token hstands h =>
        exact (Follows.of_ne_nil hstands.ne_nil _ _).append gap'
    · obtain ⟨c, cs, rfl⟩ := List.exists_cons_of_ne_nil hne
      have hc := hgap.isSeparator_head c rfl
      intro x hx
      refine .inr ?_
      cases h <;> cases hx <;> exact hc

theorem Laid.relay (h : Laid gs ls) (hgaps : List.Forall₂ Relays gs gs') : Laid gs' ls := by
  induction h generalizing gs' with
  | last =>
    cases hgaps with
    | cons _ hgaps =>
      cases hgaps
      exact .last
  | token hstands h ih =>
    cases hgaps with
    | cons _ hgaps => exact .token (hstands.of_follows (h.follows hgaps)) (ih hgaps)

theorem AreLayout.relay (h : AreLayout ['\n'] gs) (hgaps : List.Forall₂ Relays gs gs') :
    AreLayout ['\n'] gs' := by
  induction h generalizing gs' with
  | last hgap =>
    cases hgaps with
    | cons hnew hgaps =>
      cases hgaps
      rcases hnew with rfl | ⟨-, hnew⟩
      · exact .last hgap
      · exact .last hnew
  | unended hgap hline =>
    cases hgaps with
    | cons hnew hgaps =>
      cases hgaps
      rcases hnew with rfl | ⟨-, hnew⟩
      · exact .unended hgap hline
      · exact .last hnew
  | cons hgap _ ih =>
    cases hgaps with
    | cons hnew hgaps =>
      rcases hnew with rfl | ⟨-, hnew⟩
      · exact .cons hgap (ih hgaps)
      · exact .cons hnew (ih hgaps)

/-- With other gaps in it a text is scanned to the same lexemes. -/
theorem Relaid.laidOut {text text' : List Char} (hclean : (scan text).2 = [])
    (h : Relaid text text') : LaidOut text' (gaps text') (lexemes text) := by
  obtain ⟨gs', hgaps, htext'⟩ := h
  have htext := exists_laidOut hclean
  have hwhole : LaidOut text' gs' (lexemes text) :=
    ⟨htext', htext.laid.relay hgaps, htext.layout.relay hgaps⟩
  rw [← hwhole.gaps] at hwhole
  exact hwhole

end ShadingMachine.Text
