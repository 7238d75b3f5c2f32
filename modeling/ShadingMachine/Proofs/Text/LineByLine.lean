import ShadingMachine.Proofs.Text.Grammar
import ShadingMachine.Proofs.Text.Lexing

/-! Reading a text line by line. No token and no comment goes on behind a newline, so the lines of a
text can be read apart, but for a string that a line leaves open behind a backslash: the backslash
takes the newline with it, and the string goes on. -/
namespace ShadingMachine.Text

def Span.shift (k : Nat) (s : Span) : Span := ⟨k + s.start, k + s.stop⟩

def Token.shift (k : Nat) (t : Token) : Token := { t with span := t.span.shift k }

def Diagnostic.shift (k : Nat) (d : Diagnostic) : Diagnostic :=
  { d with span := d.span.map (Span.shift k) }

/-- Two texts on lines of their own are read one after the other: the tokens of the first but for
its end, and the faults of the first, come before those of the second. -/
def LineByLine (a b : List Char) : Prop :=
  scan (a ++ '\n' :: b) =
    ((scan a).1.dropLast ++ (scan b).1.map (·.shift (byteSize a + 1)),
      (scan a).2 ++ (scan b).2.map (·.shift (byteSize a + 1)))

/-- The inside of a string that ends in a backslash with nothing behind it. -/
def Dangles (cs : List Char) : Prop := ∃ body, IsQuotable body ∧ cs = body ++ ['\\']

/-- The last piece of a text is a string that is open and ends in such a backslash. -/
inductive BreaksOff : List Char → Prop
  | here {cs : List Char} : Dangles cs → BreaksOff ('"' :: cs)
  | later {c : Char} {cs : List Char} : BreaksOff (piece c cs).2.2 → BreaksOff (c :: cs)

variable {a b cs rest : List Char} {c : Char} {pos : Nat}

/-- Where a text begins only moves what is read of it. -/
theorem scanFrom_shift (k pos : Nat) (cs : List Char) :
    scanFrom (k + pos) cs =
      ((scanFrom pos cs).1.map (·.shift k), (scanFrom pos cs).2.map (·.shift k)) := by
  fun_induction scanFrom pos cs with
  | case1 pos => rw [scanFrom]; rfl
  | case2 pos c cs next tokens faults hnext kind hkind ih =>
    rw [hnext] at ih
    rw [scanFrom, Nat.add_assoc, ih, hkind]
    rfl
  | case3 pos c cs next tokens faults hnext cause hcause ih =>
    rw [hnext] at ih
    rw [scanFrom, Nat.add_assoc, ih, hcause]
    rfl
  | case4 pos c cs next tokens faults hnext hkind ih =>
    rw [hnext] at ih
    rw [scanFrom, Nat.add_assoc, ih, hkind]

theorem tokens_ne_nil (pos : Nat) (cs : List Char) : (scanFrom pos cs).1 ≠ [] := by
  fun_induction scanFrom pos cs with
  | case1 pos => exact List.cons_ne_nil _ _
  | case2 => exact List.cons_ne_nil _ _
  | case3 pos c cs next tokens faults hnext cause hcause ih
  | case4 pos c cs next tokens faults hnext hkind ih =>
    rw [hnext] at ih
    exact ih

/-- A fault is of the first piece or of what is behind it. -/
theorem fault_of_cons {d : Diagnostic} (h : d ∈ (scanFrom pos (c :: cs)).2) :
    d.span = some ⟨pos, pos + byteSize (piece c cs).2.1⟩ ∨
      d ∈ (scanFrom (pos + byteSize (piece c cs).2.1) (piece c cs).2.2).2 := by
  rw [scanFrom] at h
  cases hpiece : (piece c cs).1 with
  | token kind =>
    rw [hpiece] at h
    exact .inr h
  | gap =>
    rw [hpiece] at h
    exact .inr h
  | fault cause =>
    rw [hpiece] at h
    rcases List.mem_cons.mp h with rfl | h
    · exact .inl rfl
    · exact .inr h

/-- A fault is not empty. -/
theorem lt_stop (pos : Nat) (cs : List Char) :
    ∀ d ∈ (scanFrom pos cs).2, ∀ s ∈ d.span, pos < s.stop := by
  fun_induction scanFrom pos cs with
  | case1 pos => exact List.forall_mem_nil _
  | case2 pos c cs next tokens faults hnext kind hkind ih
  | case4 pos c cs next tokens faults hnext hkind ih =>
    rw [hnext] at ih
    exact fun d hd s hs => (Nat.le_add_right ..).trans_lt (ih d hd s hs)
  | case3 pos c cs next tokens faults hnext cause hcause ih =>
    rw [hnext] at ih
    refine List.forall_mem_cons.mpr ⟨fun s hs => ?_, fun d hd s hs =>
      (Nat.le_add_right ..).trans_lt (ih d hd s hs)⟩
    cases hs
    exact Nat.lt_add_of_pos_right (byteSize_used_pos c cs)

/-! Pieces that stand before a newline -/

theorem stringTail_of_isQuotable (h : IsQuotable cs) (rest : List Char) :
    stringTail (cs ++ rest) =
      ((stringTail rest).1, cs ++ (stringTail rest).2.1, (stringTail rest).2.2) := by
  induction h with
  | nil => rfl
  | plain hquote hslash hline _ ih =>
    rw [List.cons_append, stringTail_cons hquote hslash hline, ih]
    rfl
  | escaped _ ih =>
    rw [List.cons_append, List.cons_append, stringTail, ih]
    rfl

theorem stringTail_newline (h : ¬Dangles cs) (rest : List Char) :
    stringTail (cs ++ '\n' :: rest) =
      ((stringTail cs).1, (stringTail cs).2.1, (stringTail cs).2.2 ++ '\n' :: rest) := by
  fun_induction stringTail cs with
  | case1 | case2 | case3 => rfl
  | case4 c cs closed used tail heq ih =>
    rw [heq] at ih
    have hcs : ¬Dangles cs := by
      rintro ⟨body, hbody, rfl⟩
      exact h ⟨'\\' :: c :: body, .escaped hbody, rfl⟩
    rw [List.cons_append, List.cons_append, stringTail, ih hcs]
  | case5 c cs hquote hline hslash closed used tail heq ih =>
    rw [heq] at ih
    have hne : c ≠ '\\' := by
      rintro rfl
      cases cs with
      | nil => exact h ⟨[], .nil, rfl⟩
      | cons d ds => exact hslash d ds rfl rfl
    have hcs : ¬Dangles cs := by
      rintro ⟨body, hbody, rfl⟩
      exact h ⟨c :: body, .plain hquote hne hline hbody, rfl⟩
    rw [List.cons_append, stringTail_cons hquote hne hline, ih hcs]

theorem piece_string (cs : List Char) :
    piece '"' cs = (if (stringTail cs).1 then .token .string else .fault .unterminatedString,
      '"' :: (stringTail cs).2.1, (stringTail cs).2.2) := by
  have hblank : isBlank '"' = false := by decide
  simp [piece, hblank]

theorem piece_comment (cs : List Char) :
    piece '#' cs = (.gap, '#' :: cs.takeWhile (· != '\n'), cs.dropWhile (· != '\n')) := by
  have hblank : isBlank '#' = false := by decide
  simp [piece, hblank]

/-- A piece ends before a newline, if it is not a string that breaks off. -/
theorem piece_newline (h : c = '"' → ¬Dangles cs) (rest : List Char) :
    piece c (cs ++ '\n' :: rest) =
      ((piece c cs).1, (piece c cs).2.1, (piece c cs).2.2 ++ '\n' :: rest) := by
  by_cases hquote : c = '"'
  · subst hquote
    rw [piece_string, piece_string, stringTail_newline (h rfl)]
  · by_cases hcomment : c = '#'
    · subst hcomment
      rw [piece_comment, piece_comment, IsSeparator.takeWhile_append (by decide),
        IsSeparator.dropWhile_append (by decide)]
    · exact IsSeparator.piece_append (by decide) cs rest hcomment hquote

/-- A string that breaks off is all that is left of the text. -/
theorem piece_of_dangles (h : Dangles cs) :
    piece '"' cs = (.fault .unterminatedString, '"' :: cs, []) := by
  obtain ⟨body, hbody, rfl⟩ := h
  rw [piece_string, stringTail_of_isQuotable hbody]
  rfl

theorem not_dangles (h : ¬BreaksOff (c :: cs)) : c = '"' → ¬Dangles cs := by
  rintro rfl hcs
  exact h (.here hcs)

theorem BreaksOff.ne_nil (h : BreaksOff a) : a ≠ [] := by
  cases h <;> exact List.cons_ne_nil _ _

theorem BreaksOff.not_dangles (h : BreaksOff (piece c cs).2.2) : c = '"' → ¬Dangles cs := by
  rintro rfl hcs
  rw [piece_of_dangles hcs] at h
  exact h.ne_nil rfl

theorem byteSize_piece (c : Char) (cs : List Char) :
    byteSize (piece c cs).2.1 + byteSize (piece c cs).2.2 = byteSize (c :: cs) := by
  rw [← byteSize_append, piece_append]

/-- Such a text ends in a backslash. -/
theorem BreaksOff.isSuffix (h : BreaksOff a) : ['\\'] <:+ a := by
  induction h with
  | here hcs =>
    obtain ⟨body, -, rfl⟩ := hcs
    exact List.suffix_append ('"' :: body) ['\\']
  | @later c cs _ ih =>
    rw [← piece_append c cs]
    exact ih.trans (List.suffix_append ..)

/-- A text that does not break off is read, and then the next line is. -/
theorem scanFrom_newline (h : ¬BreaksOff a) (pos : Nat) (b : List Char) :
    scanFrom pos (a ++ '\n' :: b) =
      ((scanFrom pos a).1.dropLast ++ (scanFrom (pos + byteSize a + 1) b).1,
        (scanFrom pos a).2 ++ (scanFrom (pos + byteSize a + 1) b).2) := by
  fun_induction scanFrom pos a with
  | case1 pos =>
    rw [List.nil_append, scanFrom]
    rfl
  | case2 pos c cs next tokens faults hnext kind hkind ih =>
    have hrest := ih (mt .later h)
    have hne := tokens_ne_nil next (piece c cs).2.2
    rw [hnext] at hrest hne
    rw [List.cons_append, scanFrom, piece_newline (not_dangles h), hkind]
    simp only [← byteSize_piece c cs, ← Nat.add_assoc, List.dropLast_cons_of_ne_nil hne]
    rw [hrest]
    rfl
  | case3 pos c cs next tokens faults hnext cause hcause ih =>
    have hrest := ih (mt .later h)
    rw [hnext] at hrest
    rw [List.cons_append, scanFrom, piece_newline (not_dangles h), hcause]
    simp only [← byteSize_piece c cs, ← Nat.add_assoc]
    rw [hrest]
    rfl
  | case4 pos c cs next tokens faults hnext hkind ih =>
    have hrest := ih (mt .later h)
    rw [hnext] at hrest
    rw [List.cons_append, scanFrom, piece_newline (not_dangles h), hkind]
    simp only [← byteSize_piece c cs, ← Nat.add_assoc]
    rw [hrest]

/-! A text that breaks off -/

theorem BreaksOff.exists_fault (h : BreaksOff a) (pos : Nat) :
    ∃ d ∈ (scanFrom pos a).2, ∃ s, d.span = some s ∧ s.stop = pos + byteSize a := by
  induction h generalizing pos with
  | @here cs hcs =>
    rw [scanFrom, piece_of_dangles hcs]
    exact ⟨_, List.mem_cons_self, _, rfl, rfl⟩
  | @later c cs _ ih =>
    obtain ⟨d, hd, s, hs, hstop⟩ := ih (pos + byteSize (piece c cs).2.1)
    rw [Nat.add_assoc, byteSize_piece] at hstop
    refine ⟨d, ?_, s, hs, hstop⟩
    rw [scanFrom]
    cases (piece c cs).1 with
    | token => exact hd
    | fault => exact List.mem_cons_of_mem _ hd
    | gap => exact hd

/-- The string goes on behind the newline. -/
theorem lt_byteSize_of_dangles (h : Dangles cs) (b : List Char) :
    byteSize ('"' :: cs) < byteSize (piece '"' (cs ++ '\n' :: b)).2.1 := by
  obtain ⟨body, hbody, rfl⟩ := h
  rw [piece_string, List.append_assoc, stringTail_of_isQuotable hbody]
  show _ < byteSize ('"' :: (body ++ '\\' :: '\n' :: (stringTail b).2.1))
  simp only [byteSize_cons, byteSize_append, byteSize_nil]
  have : 0 < '\n'.utf8Size := by decide
  omega

/-- With another line behind it, no fault stops where the text does. -/
theorem BreaksOff.stop_ne (h : BreaksOff a) (pos : Nat) (b : List Char) :
    ∀ d ∈ (scanFrom pos (a ++ '\n' :: b)).2, ∀ s ∈ d.span, s.stop ≠ pos + byteSize a := by
  induction h generalizing pos with
  | @here cs hcs =>
    have hlt := lt_byteSize_of_dangles hcs b
    intro d hd s hs
    rw [List.cons_append] at hd
    rcases fault_of_cons hd with hspan | hd
    · rw [hspan] at hs
      cases hs
      show pos + byteSize (piece '"' (cs ++ '\n' :: b)).2.1 ≠ _
      omega
    · have hstop := lt_stop _ _ d hd s hs
      omega
  | @later c cs hrest ih =>
    intro d hd s hs
    have hpiece := piece_newline hrest.not_dangles b
    rw [List.cons_append] at hd
    rcases fault_of_cons hd with hspan | hd
    · have hpos := byteSize_pos hrest.ne_nil
      rw [hspan, hpiece] at hs
      cases hs
      rw [← byteSize_piece]
      show pos + byteSize (piece c cs).2.1 ≠ _
      omega
    · rw [hpiece] at hd
      rw [← byteSize_piece, ← Nat.add_assoc]
      exact ih _ d hd s hs

theorem not_lineByLine (h : BreaksOff a) (b : List Char) : ¬LineByLine a b := by
  intro hlines
  obtain ⟨d, hd, s, hs, hstop⟩ := h.exists_fault 0
  refine h.stop_ne 0 b d ?_ s hs hstop
  rw [show scanFrom 0 (a ++ '\n' :: b) = _ from hlines]
  exact List.mem_append_left _ hd

/-- Two texts on lines of their own are read one after the other just if the first does not break
off in a string. -/
theorem lineByLine_iff (a b : List Char) : LineByLine a b ↔ ¬BreaksOff a := by
  refine ⟨fun h hbreaks => ?_, fun h => ?_⟩
  · exact not_lineByLine hbreaks b h
  · have hscan := scanFrom_newline h 0 b
    rw [Nat.zero_add, ← Nat.add_zero (byteSize a + 1), scanFrom_shift] at hscan
    exact hscan

/-- A string that is left open behind a backslash, and an opcode on the next line. -/
theorem not_lineByLine_backslash : ¬LineByLine "pushis \"oops\\".toList "drop".toList := by
  have hplain {c : Char} {cs : List Char} (hc : isNamePart c) (h : IsQuotable cs) :
      IsQuotable (c :: cs) := by
    refine .plain ?_ ?_ ?_ h <;> rintro rfl <;> cases hc
  have hdangles : Dangles ['o', 'o', 'p', 's', '\\'] :=
    ⟨['o', 'o', 'p', 's'], hplain rfl (hplain rfl (hplain rfl (hplain rfl .nil))), rfl⟩
  have hbehind : BreaksOff " \"oops\\".toList := @BreaksOff.later ' ' _ (.here hdangles)
  exact not_lineByLine (@BreaksOff.later 'p' "ushis \"oops\\".toList hbehind) _

end ShadingMachine.Text
