import ShadingMachine.Proofs.Text.LineByLine

/-! The tokens that begin on a line. How many there are can be told from the line alone, though the
last of them may go on behind it. -/
namespace ShadingMachine.Text

/-- The token is on a line that ends at `stop`. -/
def Token.isBefore (stop : Nat) (t : Token) : Bool := t.kind != .endOfInput && t.span.start < stop

/-- The number of tokens and faults of a text. -/
def pieceCount (cs : List Char) : Nat := (scan cs).1.length - 1 + (scan cs).2.length

variable {c : Char} {cs line rest : List Char} {pos stop : Nat}

theorem pieceCount_eq (pos : Nat) (cs : List Char) :
    (scanFrom pos cs).1.length - 1 + (scanFrom pos cs).2.length = pieceCount cs := by
  have hshift := scanFrom_shift pos 0 cs
  rw [Nat.add_zero] at hshift
  rw [hshift, List.length_map, List.length_map]
  rfl

/-- A piece ends before the end of a line, if it is not a string that breaks off. -/
theorem piece_endsLine (h : c = '"' → ¬Dangles cs) (hrest : EndsLine rest) :
    piece c (cs ++ rest) = ((piece c cs).1, (piece c cs).2.1, (piece c cs).2.2 ++ rest) := by
  cases rest with
  | nil => rw [List.append_nil, List.append_nil]
  | cons x rest =>
    rw [hrest x rfl]
    exact piece_newline h rest

theorem piece_endsLine_of_ne_fault (h : ∀ cause, (piece c cs).1 ≠ .fault cause)
    (hrest : EndsLine rest) :
    piece c (cs ++ rest) = ((piece c cs).1, (piece c cs).2.1, (piece c cs).2.2 ++ rest) := by
  refine piece_endsLine ?_ hrest
  rintro rfl hcs
  exact h _ (by rw [piece_of_dangles hcs])

/-- A text without faults does not break off. -/
theorem not_breaksOff_of_clean (h : (scan cs).2 = []) : ¬BreaksOff cs := by
  intro hbreak
  obtain ⟨d, hd, -⟩ := hbreak.exists_fault 0
  rw [show (scanFrom 0 cs).2 = [] from h] at hd
  cases hd

/-- The tokens of what is behind a line are not on it. -/
theorem dropWhile_isBefore (h : stop ≤ pos) (cs : List Char) :
    (scanFrom pos cs).1.dropWhile (·.isBefore stop) = (scanFrom pos cs).1 := by
  refine List.dropWhile_eq_self_iff.mpr fun hlength hbefore => ?_
  have hstart := le_start pos cs _ (List.getElem_mem hlength)
  simp only [Token.isBefore, Bool.and_eq_true, decide_eq_true_eq] at hbefore
  omega

theorem scanFrom_token {kind : TokenKind} {used : List Char}
    (h : piece c cs = (.token kind, used, rest)) (pos : Nat) :
    scanFrom pos (c :: cs) =
      (⟨kind, String.ofList used, ⟨pos, pos + byteSize used⟩⟩ ::
        (scanFrom (pos + byteSize used) rest).1, (scanFrom (pos + byteSize used) rest).2) := by
  rw [scanFrom, h]

theorem scanFrom_gap {used : List Char} (h : piece c cs = (.gap, used, rest)) (pos : Nat) :
    scanFrom pos (c :: cs) = scanFrom (pos + byteSize used) rest := by
  rw [scanFrom, h]

theorem scanFrom_fault {cause : Cause} {used : List Char}
    (h : piece c cs = (.fault cause, used, rest)) (pos : Nat) : (scanFrom pos (c :: cs)).2 ≠ [] := by
  rw [scanFrom, h]
  exact List.cons_ne_nil _ _

theorem isBefore_token {kind : TokenKind} (hkind : kind ≠ .endOfInput) (h : pos < stop)
    (text : String) (next : Nat) : Token.isBefore stop ⟨kind, text, ⟨pos, next⟩⟩ = true := by
  simp [Token.isBefore, hkind, h]

/-- A string that the line leaves open goes on behind it. -/
theorem dropWhile_of_dangles (h : Dangles cs) (hstop : pos + byteSize ('"' :: cs) = stop)
    (hclean : (scanFrom pos ('"' :: (cs ++ '\n' :: rest))).2 = []) :
    (scanFrom pos ('"' :: (cs ++ '\n' :: rest))).1.dropWhile (·.isBefore stop) =
      (scanFrom pos ('"' :: (cs ++ '\n' :: rest))).1.drop 1 := by
  have hlonger := lt_byteSize_of_dangles h rest
  have hpiece := piece_string (cs ++ '\n' :: rest)
  cases hclosed : (stringTail (cs ++ '\n' :: rest)).1 with
  | false =>
    rw [hclosed] at hpiece
    exact absurd hclean (scanFrom_fault hpiece pos)
  | true =>
    rw [hclosed, if_pos rfl] at hpiece
    rw [hpiece] at hlonger
    have hpos := byteSize_pos (List.cons_ne_nil '"' cs)
    have hlt : pos < stop := by omega
    rw [scanFrom_token hpiece, List.dropWhile_cons_of_pos (isBefore_token (by decide) hlt _ _),
      dropWhile_isBefore (by dsimp only at hlonger; omega)]
    rfl

/-- Of the tokens from a place on, as many are on the line as it has pieces. -/
theorem dropWhile_scanFrom (hrest : EndsLine rest) (hstop : pos + byteSize line = stop)
    (hclean : (scanFrom pos (line ++ rest)).2 = []) :
    (scanFrom pos (line ++ rest)).1.dropWhile (·.isBefore stop) =
      (scanFrom pos (line ++ rest)).1.drop
        ((scanFrom pos line).1.length - 1 + (scanFrom pos line).2.length) := by
  fun_induction scanFrom pos line with
  | case1 pos => exact dropWhile_isBefore hstop.ge rest
  | case2 pos c cs next tokens faults hnext kind hkind ih =>
    have hpiece := piece_endsLine_of_ne_fault (c := c) (by rw [hkind]; rintro _ ⟨⟩) hrest
    rw [hkind] at hpiece
    have hsize := byteSize_piece c cs
    have hpos := byteSize_used_pos c cs
    have hlength := List.length_pos_iff.mpr (tokens_ne_nil next (piece c cs).2.2)
    rw [List.cons_append, scanFrom_token hpiece] at hclean ⊢
    have hrest := ih (by omega) hclean
    rw [hnext] at hrest hlength
    have hlt : pos < stop := by omega
    have hcount : (tokens.length + 1) - 1 + faults.length =
        (tokens.length - 1 + faults.length) + 1 := by
      dsimp only at hlength
      omega
    rw [List.dropWhile_cons_of_pos (isBefore_token (piece_kind_ne hkind) hlt _ _), hrest]
    show _ = List.drop ((tokens.length + 1) - 1 + faults.length) _
    rw [hcount, List.drop_succ_cons]
  | case3 pos c cs next tokens faults hnext cause hcause ih =>
    -- The string that the line leaves open is a token that goes on behind it.
    have hdangles : c = '"' ∧ Dangles cs := by
      by_contra hdangles
      have hpiece := piece_endsLine (fun hc hcs => hdangles ⟨hc, hcs⟩) hrest
      rw [hcause] at hpiece
      exact scanFrom_fault hpiece pos hclean
    obtain ⟨rfl, hdangles⟩ := hdangles
    have hend := hnext
    rw [piece_of_dangles hdangles, scanFrom] at hend
    obtain ⟨rfl, rfl⟩ := Prod.mk.inj hend
    cases rest with
    | nil =>
      rw [List.append_nil] at hclean
      exact absurd hclean (scanFrom_fault (piece_of_dangles hdangles) pos)
    | cons x rest =>
      obtain rfl := hrest x rfl
      exact dropWhile_of_dangles hdangles hstop hclean
  | case4 pos c cs next tokens faults hnext hkind ih =>
    have hpiece := piece_endsLine_of_ne_fault (c := c) (by rw [hkind]; rintro _ ⟨⟩) hrest
    rw [hkind] at hpiece
    have hsize := byteSize_piece c cs
    rw [List.cons_append, scanFrom_gap hpiece] at hclean ⊢
    have hrest := ih (by omega) hclean
    rw [hnext] at hrest
    exact hrest

/-- The last token is the end of the text. -/
theorem dropLast_scanFrom (pos : Nat) (cs : List Char) :
    (scanFrom pos cs).1.dropLast ++ (scanFrom (pos + byteSize cs) []).1 = (scanFrom pos cs).1 := by
  fun_induction scanFrom pos cs with
  | case1 pos =>
    rw [scanFrom]
    rfl
  | case2 pos c cs next tokens faults hnext kind hkind ih =>
    have hne := tokens_ne_nil next (piece c cs).2.2
    rw [hnext] at ih hne
    rw [Nat.add_assoc, byteSize_piece] at ih
    rw [List.dropLast_cons_of_ne_nil hne, List.cons_append, ih]
  | case3 pos c cs next tokens faults hnext cause hcause ih
  | case4 pos c cs next tokens faults hnext hkind ih =>
    rw [hnext] at ih
    rw [Nat.add_assoc, byteSize_piece] at ih
    exact ih

/-- A line is scanned, and then what is behind it. -/
theorem scanFrom_endsLine (h : ¬BreaksOff line) (hrest : EndsLine rest) (pos : Nat) :
    scanFrom pos (line ++ rest) =
      ((scanFrom pos line).1.dropLast ++ (scanFrom (pos + byteSize line) rest).1,
        (scanFrom pos line).2 ++ (scanFrom (pos + byteSize line) rest).2) := by
  cases rest with
  | nil =>
    rw [dropLast_scanFrom]
    simp [scanFrom]
  | cons x rest =>
    have hnewline : piece '\n' rest = (.gap, ['\n'], rest) := rfl
    rw [hrest x rfl, scanFrom_newline h, scanFrom_gap hnewline]
    rfl

/-- A line without faults that does not break off has all the tokens that are on it. -/
theorem drop_scanFrom (h : ¬BreaksOff line) (hrest : EndsLine rest)
    (hline : (scanFrom pos line).2 = []) :
    (scanFrom pos (line ++ rest)).1.drop (pieceCount line) =
      (scanFrom (pos + byteSize line) rest).1 := by
  rw [← pieceCount_eq pos, hline, scanFrom_endsLine h hrest]
  simp [← List.length_dropLast]

end ShadingMachine.Text
