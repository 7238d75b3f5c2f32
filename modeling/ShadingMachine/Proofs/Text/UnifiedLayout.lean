import ShadingMachine.Proofs.Text.Endings
import ShadingMachine.Proofs.Text.Layout
import ShadingMachine.Proofs.Text.Lexemes

/-! What making line endings alike does to a text that is laid out. Its gaps and its tokens are
changed apart. The gaps are blanks and comments still, if they are so with carriage returns for
newlines; the tokens are read as before, but for a string that a carriage return is in, which is
broken off there. -/
namespace ShadingMachine.Text

variable {c : Char} {cs ds body rest gap : List Char} {gs : List (List Char)} {l : Lexeme}
  {ls : List Lexeme} {pos : Nat}

theorem getLast?_ne_of_cons {d : Char} (h : (c :: cs).getLast? ≠ some d) : cs.getLast? ≠ some d := by
  intro hlast
  rw [List.getLast?_cons, hlast] at h
  exact h rfl

/-- Line endings are made alike in two parts of a text apart, unless one is cut in two. -/
theorem unifyFrom_append_of (h : ds.head? ≠ some '\n' ∨ cs.getLast? ≠ some '\r') (pos : Nat) :
    unifyFrom pos (cs ++ ds) =
      ((unifyFrom pos cs).1 ++ (unifyFrom (pos + byteSize (unifyFrom pos cs).1) ds).1,
        (unifyFrom pos cs).2 ++ (unifyFrom (pos + byteSize (unifyFrom pos cs).1) ds).2) := by
  fun_induction unifyFrom pos cs with
  | case1 pos => rfl
  | case2 pos cs text warnings heq ih =>
    have hrest := ih (h.imp_right fun h => getLast?_ne_of_cons (getLast?_ne_of_cons h))
    rw [heq] at hrest
    rw [List.cons_append, List.cons_append, unifyFrom, hrest, byteSize_cons, ← Nat.add_assoc]
    rfl
  | case3 pos cs hlf text warnings heq ih =>
    have hnone : ∀ rest, cs ++ ds ≠ '\n' :: rest := by
      intro rest hcut
      cases cs with
      | nil =>
        rw [List.nil_append] at hcut
        rw [hcut] at h
        simp at h
      | cons c cs => exact hlf cs (by rw [(List.cons.inj hcut).1])
    have hrest := ih (h.imp_right getLast?_ne_of_cons)
    rw [heq] at hrest
    rw [List.cons_append, unifyFrom.eq_3 _ _ hnone, hrest, byteSize_cons, ← Nat.add_assoc]
    rfl
  | case4 pos cs text warnings heq ih =>
    have hrest := ih (h.imp_right getLast?_ne_of_cons)
    rw [heq] at hrest
    rw [List.cons_append, unifyFrom, hrest, byteSize_cons, ← Nat.add_assoc]
    rfl
  | case5 pos c cs hcrlf hcr hnul text warnings heq ih =>
    have hcons := unifyFrom.eq_5 pos c (cs ++ ds) (fun _ hc _ => hcr hc) hcr hnul
    have hrest := ih (h.imp_right getLast?_ne_of_cons)
    rw [heq] at hrest
    rw [List.cons_append, hcons, hrest, byteSize_cons, ← Nat.add_assoc]
    rfl

theorem unified_append_of (h : ds.head? ≠ some '\n' ∨ cs.getLast? ≠ some '\r') :
    unified (cs ++ ds) = unified cs ++ unified ds := by
  rw [← unifyFrom_fst 0, unifyFrom_append_of h, unifyFrom_fst, unifyFrom_fst]

/-- With its line endings made alike a text begins like itself or with a separator. -/
theorem follows_unified (cs : List Char) : Follows cs (unified cs) := by
  fun_cases unified cs with
  | case1 => exact Follows.refl _
  | case2 | case3 =>
    intro x hx
    cases hx
    exact .inr (by decide)
  | case4 c cs =>
    intro x hx
    cases hx
    unfold plainChar
    split
    · exact .inr (by decide)
    · exact .inl rfl

/-! Gaps -/

/-- A line ending is a newline, and what follows is laid out if it is so without the rest of it. -/
theorem IsLayout.unified_ending (h : IsLayout ['\n'] (unified cs)) (hc : c ∈ ['\n', '\r']) :
    ∃ rest, unified (c :: cs) = '\n' :: rest ∧ IsLayout ['\n'] rest := by
  simp only [List.mem_cons, List.not_mem_nil, or_false] at hc
  rcases hc with rfl | rfl
  · exact ⟨unified cs, unified_cons (by decide) cs, h⟩
  · by_cases hcut : ∃ rest, cs = '\n' :: rest
    · obtain ⟨rest, rfl⟩ := hcut
      rw [unified_cons (by decide)] at h
      exact ⟨unified rest, rfl, h.tail⟩
    · exact ⟨unified cs, unified.eq_3 cs fun rest hrest => hcut ⟨rest, hrest⟩, h⟩

theorem isBlank_plainChar (hc : isBlank c = true) : isBlank (plainChar c) = true := by
  unfold plainChar
  split
  · decide
  · exact hc

theorem plainChar_of_line {line : List Char} (h : ∀ c ∈ line, c ∉ ['\n', '\r']) :
    '\r' ∉ line ∧ ∀ c ∈ line.map plainChar, c ∉ ['\n'] := by
  refine ⟨fun hmem => h '\r' hmem (by decide), fun d hd hend => ?_⟩
  obtain rfl := List.mem_singleton.mp hend
  obtain ⟨c, hc, heq⟩ := List.mem_map.mp hd
  rw [plainChar_eq_iff (by decide) (by decide)] at heq
  exact h c hc (by simp [heq])

theorem IsLayout.unified (h : IsLayout ['\n', '\r'] gap) : IsLayout ['\n'] (unified gap) := by
  induction h with
  | nil => exact .nil
  | @blank c cs hc _ ih =>
    by_cases hcr : c = '\r'
    · obtain ⟨rest, hrest, hlayout⟩ := ih.unified_ending (c := c) (by simp [hcr])
      rw [hrest]
      exact .blank (by decide) hlayout
    · rw [unified_cons hcr]
      exact .blank (isBlank_plainChar hc) ih
  | @comment line cs e hline he _ ih =>
    obtain ⟨hcr, hplain⟩ := plainChar_of_line hline
    obtain ⟨rest, hrest, hlayout⟩ := ih.unified_ending he
    rw [unified_cons (by decide), unified_append hcr, hrest]
    exact .comment hplain List.mem_cons_self hlayout

theorem AreLayout.unified (h : AreLayout ['\n', '\r'] gs) :
    AreLayout ['\n'] (gs.map Text.unified) := by
  induction h with
  | last hgap => exact .last hgap.unified
  | @unended gap line hgap hline =>
    obtain ⟨hcr, hplain⟩ := plainChar_of_line hline
    have hunified := unified_append hcr []
    rw [List.append_nil] at hunified
    rw [List.map_singleton, unified_append_of (.inl (by simp)), unified_cons (by decide), hunified]
    exact .unended hgap.unified (by simpa [Text.unified] using hplain)
  | cons hgap _ ih => exact .cons hgap.unified ih

/-! Tokens -/

def Lexeme.unified (l : Lexeme) : Lexeme := (l.1, String.ofList (Text.unified l.2.toList))

/-- What is read of a string that a carriage return has got into. -/
def brokenString? (l : Lexeme) : Option (List Char) :=
  match l.1, unified l.2.toList with
  | .string, c :: cs => if (stringTail cs).1 then none else some (c :: (stringTail cs).2.1)
  | _, _ => none

theorem Stands.spells (h : Stands l rest) : l.1.Spells l.2.toList := by
  obtain ⟨c, used, hl, hpiece⟩ := h
  have hspells := isPiece_piece c (used ++ rest)
  rw [hpiece] at hspells
  rw [hl]
  cases hspells with
  | token hspells => exact hspells

theorem isPlain_append (hcs : ∀ c ∈ cs, IsPlain c) (hds : ∀ c ∈ ds, IsPlain c) :
    ∀ c ∈ cs ++ ds, IsPlain c :=
  fun c hc => (List.mem_append.mp hc).elim (hcs c) (hds c)

theorem isPlain_of_digits (h : cs.all Char.isDigit) : ∀ c ∈ cs, IsPlain c :=
  fun c hc => isPlain_of_isDigit (List.all_eq_true.mp h c hc)

theorem IsSign.isPlain (h : IsSign cs) : ∀ c ∈ cs, IsPlain c := by
  cases h <;> simp [IsPlain]

theorem IsNumber.isPlain (h : IsNumber cs) : ∀ c ∈ cs, IsPlain c := by
  obtain ⟨hsign, hdecimal, hexponent⟩ := h
  refine isPlain_append (isPlain_append hsign.isPlain ?_) ?_
  · cases hdecimal with
    | whole _ hds => exact isPlain_of_digits hds
    | point _ hds hes =>
      exact isPlain_append (isPlain_of_digits hds)
        (List.forall_mem_cons.mpr ⟨by decide, isPlain_of_digits hes⟩)
  · cases hexponent with
    | none => exact List.forall_mem_nil _
    | some he hsign _ hds =>
      refine isPlain_append (List.forall_mem_cons.mpr ⟨?_, hsign.isPlain⟩) (isPlain_of_digits hds)
      rcases he with rfl | rfl <;> decide

/-- The characters of a token are plain, but for those of a string. -/
theorem TokenKind.Spells.isPlain {kind : TokenKind} (h : kind.Spells cs) (hkind : kind ≠ .string) :
    ∀ c ∈ cs, IsPlain c := by
  cases h with
  | word hc hcs =>
    refine List.forall_mem_cons.mpr ⟨isPlain_of_isNamePart (by simp [isNamePart, hc]), ?_⟩
    exact fun c hc => isPlain_of_isNamePart (List.all_eq_true.mp hcs c hc)
  | number h => exact h.isPlain
  | string => exact absurd rfl hkind
  | colon | leftBracket | rightBracket | endOfInput => simp [IsPlain]

theorem unified_eq_self (h : ∀ c ∈ cs, IsPlain c) : unified cs = cs := by
  rw [← unifyFrom_fst 0, unifyFrom_eq_self h]

theorem TokenKind.Spells.getLast? {kind : TokenKind} (h : kind.Spells cs) :
    cs.getLast? ≠ some '\r' := by
  by_cases hkind : kind = .string
  · subst hkind
    cases h
    simp [List.getLast?_cons]
  · exact fun hlast => (h.isPlain hkind '\r' (List.mem_of_getLast? hlast)).1 rfl

theorem IsQuotable.head? (h : IsQuotable body) : body.head? ≠ some '\n' := by
  cases h with
  | nil => simp
  | plain _ _ hline => simpa using hline
  | escaped => simp

/-- The inside of a string is so still, or there is a newline in it. -/
theorem IsQuotable.unified_cases (h : IsQuotable body) : IsQuotable (unified body) ∨
    ∃ front back, IsQuotable front ∧ unified body = front ++ '\n' :: back := by
  have hreturn {cs : List Char} (hcs : cs.head? ≠ some '\n') :
      unified ('\r' :: cs) = '\n' :: unified cs :=
    unified.eq_3 cs fun rest hrest => hcs (by rw [hrest]; rfl)
  induction h with
  | nil => exact .inl .nil
  | @plain c cs hquote hslash hline hcs ih =>
    by_cases hcr : c = '\r'
    · subst hcr
      exact .inr ⟨[], unified cs, .nil, hreturn hcs.head?⟩
    · have hplain {d : Char} (hd : c ≠ d) (hnul : d ≠ '\x00') (hspace : d ≠ ' ') :
          plainChar c ≠ d := fun h => hd ((plainChar_eq_iff hnul hspace).mp h)
      have hquote := hplain hquote (by decide) (by decide)
      have hslash := hplain hslash (by decide) (by decide)
      have hline := hplain hline (by decide) (by decide)
      rw [unified_cons hcr]
      rcases ih with ih | ⟨front, back, hfront, hback⟩
      · exact .inl (.plain hquote hslash hline ih)
      · exact .inr ⟨plainChar c :: front, back, .plain hquote hslash hline hfront,
          congrArg (plainChar c :: ·) hback⟩
  | @escaped c cs hcs ih =>
    obtain ⟨d, hd⟩ : ∃ d, unified (c :: cs) = d :: unified cs := by
      by_cases hcr : c = '\r'
      · subst hcr
        exact ⟨_, hreturn hcs.head?⟩
      · exact ⟨_, unified_cons hcr cs⟩
    rw [unified_cons (by decide), hd]
    rcases ih with ih | ⟨front, back, hfront, hback⟩
    · exact .inl (.escaped ih)
    · exact .inr ⟨'\\' :: d :: front, back, .escaped hfront,
        congrArg (fun cs => '\\' :: d :: cs) hback⟩

/-- A string is closed still, or it is broken off at a newline that has got into it. -/
theorem IsQuotable.unified_string (h : IsQuotable body) :
    unified ('"' :: (body ++ ['"'])) = '"' :: (unified body ++ ['"']) ∧
      ((∀ rest, stringTail (unified body ++ '"' :: rest) = (true, unified body ++ ['"'], rest)) ∨
        ∃ front, ∀ rest, ∃ tail, stringTail (unified body ++ '"' :: rest) = (false, front, tail)) := by
  refine ⟨?_, ?_⟩
  · rw [unified_cons (by decide), unified_append_of (.inl (by simp))]
    rfl
  · rcases h.unified_cases with h | ⟨front, back, hfront, hback⟩
    · refine .inl fun rest => ?_
      rw [stringTail_of_isQuotable h]
      rfl
    · refine .inr ⟨front, fun rest => ⟨'\n' :: (back ++ '"' :: rest), ?_⟩⟩
      rw [hback, List.append_assoc, stringTail_of_isQuotable hfront, List.cons_append, stringTail,
        List.append_nil]

theorem Stands.unified_eq_self (h : Stands l rest) (hkind : l.1 ≠ .string) : l.unified = l := by
  rw [Lexeme.unified, Text.unified_eq_self (h.spells.isPlain hkind), String.ofList_toList]

/-- A token stands still before what may follow it, or it is a string and broken off. -/
theorem Stands.unified_cases (h : Stands l rest) :
    (brokenString? l = none ∧ ∀ rest', Follows rest rest' → Stands l.unified rest') ∨
      ∃ used, brokenString? l = some used ∧ ∃ c cs, unified l.2.toList = c :: cs ∧
        ∀ rest', ∃ tail, piece c (cs ++ rest') = (.fault .unterminatedString, used, tail) := by
  have hspells := h.spells
  obtain ⟨kind, text⟩ := l
  dsimp only at hspells
  by_cases hkind : kind = .string
  · subst hkind
    generalize hcs : text.toList = cs at hspells
    cases hspells with
    | @string body hbody =>
      obtain ⟨hunified, hclosed | ⟨front, hbroken⟩⟩ := hbody.unified_string
      · have hnone : brokenString? (.string, text) = none := by
          simp [brokenString?, hcs, hunified, hclosed []]
        refine .inl ⟨hnone, fun rest' _ => ⟨'"', unified body ++ ['"'], ?_, ?_⟩⟩
        · rw [Lexeme.unified, String.toList_ofList, hcs, hunified]
        · rw [List.append_assoc, piece_string]
          simp [hclosed rest', Lexeme.unified]
      · have hsome : brokenString? (.string, text) = some ('"' :: front) := by
          obtain ⟨tail, htail⟩ := hbroken []
          simp [brokenString?, hcs, hunified, htail]
        refine .inr ⟨_, hsome, '"', unified body ++ ['"'], hcs ▸ hunified, fun rest' => ?_⟩
        obtain ⟨tail, htail⟩ := hbroken rest'
        refine ⟨tail, ?_⟩
        rw [List.append_assoc, piece_string]
        simp [htail]
  · refine .inl ⟨?_, fun rest' hrest' => ?_⟩
    · unfold brokenString?
      split
      · exact absurd ‹_› hkind
      · rfl
    · rw [h.unified_eq_self hkind]
      exact h.of_follows hrest'

/-! Whole texts -/

/-- Nothing of a line ending is in both a gap and a token. -/
theorem Laid.unified_layOut (h : Laid gs ls) :
    unified (layOut gs ls) = layOut (gs.map unified) (ls.map Lexeme.unified) := by
  induction h with
  | @last gap =>
    show unified (gap ++ []) = unified gap ++ []
    rw [List.append_nil, List.append_nil]
  | @token gap gs l ls hstands _ ih =>
    have hhead : (l.2.toList ++ layOut gs ls).head? ≠ some '\n' := by
      obtain ⟨c, cs, hl⟩ := List.exists_cons_of_ne_nil hstands.ne_nil
      have hblank := hstands.isBlank_head hl
      rw [hl]
      rintro ⟨⟩
      cases hblank
    show unified (gap ++ (l.2.toList ++ layOut gs ls)) =
      unified gap ++ ((String.ofList (unified l.2.toList)).toList ++ _)
    rw [unified_append_of (.inl hhead), unified_append_of (.inr hstands.spells.getLast?), ih,
      String.toList_ofList]

theorem Laid.unified (h : Laid gs ls) (hwhole : ∀ l ∈ ls, brokenString? l = none) :
    Laid (gs.map unified) (ls.map Lexeme.unified) := by
  induction h with
  | last => exact .last
  | @token gap gs l ls hstands h ih =>
    obtain ⟨hl, hls⟩ := List.forall_mem_cons.mp hwhole
    obtain ⟨-, hstill⟩ | ⟨used, hused, -⟩ := hstands.unified_cases
    · refine .token (hstill _ ?_) (ih hls)
      rw [← h.unified_layOut]
      exact follows_unified _
    · rw [hl] at hused
      cases hused

/-- Without broken strings the text is laid out with the changed gaps and tokens. -/
theorem LaidOut.unified {text : List Char} (h : LaidOut text gs ls)
    (hlayout : AreLayout ['\n', '\r'] gs) (hwhole : ∀ l ∈ ls, brokenString? l = none) :
    LaidOut (unified text) (gs.map Text.unified) (ls.map Lexeme.unified) :=
  ⟨by rw [h.text, h.laid.unified_layOut], h.laid.unified hwhole, hlayout.unified⟩

/-- The first fault of a text is an unterminated string, of which `used` is read. -/
structure BreaksAt (pos : Nat) (cs used : List Char) : Prop where
  fault : ∃ front back faults, cs = front ++ (used ++ back) ∧
    (scanFrom pos cs).2 = .ofCause .error .unterminatedString
      (some ⟨pos + byteSize front, pos + byteSize front + byteSize used⟩) :: faults

theorem BreaksAt.append {used tokens : List _} (h : BreaksAt (pos + byteSize cs) rest used)
    (hscans : Scans pos cs tokens rest) : BreaksAt pos (cs ++ rest) used := by
  obtain ⟨front, back, faults, rfl, hfaults⟩ := h
  refine ⟨cs ++ front, back, faults, by rw [List.append_assoc], ?_⟩
  rw [hscans.eq, hfaults, byteSize_append, Nat.add_assoc]

theorem breaksAt_of_piece {used tail : List Char}
    (h : piece c cs = (.fault .unterminatedString, used, tail)) (pos : Nat) :
    BreaksAt pos (c :: cs) used := by
  have happend := piece_append c cs
  rw [h] at happend
  refine ⟨[], tail, (scanFrom (pos + byteSize used) tail).2, happend.symm, ?_⟩
  rw [scanFrom, h]
  rfl

/-- The first string that is broken is the first fault, whatever the gaps. -/
theorem Laid.breaksAt {used : List Char} (h : Laid gs ls) (hlayout : AreLayout ['\n', '\r'] gs)
    (hbroken : ls.findSome? brokenString? = some used) (pos : Nat) :
    BreaksAt pos (Text.unified (layOut gs ls)) used := by
  induction h generalizing pos with
  | last => cases hbroken
  | @token gap gs l ls hstands h ih =>
    cases hlayout with
    | last => cases h
    | unended => cases h
    | cons hgap hlayout =>
      have hgap := hgap.unified.scans pos
      have hlaid : Laid (gap :: gs) (l :: ls) := .token hstands h
      have hwhole := hlaid.unified_layOut
      rw [List.map_cons, List.map_cons] at hwhole
      rw [hwhole]
      obtain ⟨hnone, hstill⟩ | ⟨used', hused, c, cs, hl, hpiece⟩ := hstands.unified_cases
      · rw [List.findSome?_cons, hnone] at hbroken
        have hstill := hstill _ (h.unified_layOut ▸ follows_unified _)
        have hrest := ih hlayout hbroken
          (pos + byteSize (Text.unified gap) + byteSize l.unified.2.toList)
        rw [h.unified_layOut] at hrest
        exact (hrest.append (hstill.scans _)).append (hgap _)
      · rw [List.findSome?_cons, hused] at hbroken
        cases hbroken
        obtain ⟨tail, hpiece⟩ := hpiece (layOut (gs.map Text.unified) (ls.map Lexeme.unified))
        have hfault := breaksAt_of_piece hpiece (pos + byteSize (Text.unified gap))
        rw [← List.cons_append, ← hl, ← String.toList_ofList (l := Text.unified l.2.toList)] at hfault
        exact hfault.append (hgap _)

end ShadingMachine.Text
