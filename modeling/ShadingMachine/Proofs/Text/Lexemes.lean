import ShadingMachine.Proofs.Number.Decimal
import ShadingMachine.Proofs.Text.Lexing
import ShadingMachine.Proofs.Text.Pieces

/-! The lexemes of a text that is put together from names, numbers, strings and punctuation. -/
namespace ShadingMachine.Text

/-- Not one of the characters that are replaced before a text is scanned. -/
def IsPlain (c : Char) : Prop := c ≠ '\r' ∧ c ≠ '\x00'

instance (c : Char) : Decidable (IsPlain c) := inferInstanceAs (Decidable (_ ∧ _))

/-- Plain text that is scanned to the lexemes, wherever it stands before `rest`. -/
structure Lexes (cs : List Char) (ls : List Lexeme) (rest : List Char) : Prop where
  scans : ∀ pos, ∃ tokens, Scans pos cs tokens rest ∧ tokens.map Token.lexeme = ls
  plain : ∀ c ∈ cs, IsPlain c

/-- Whatever follows. -/
def Closed (cs : List Char) (ls : List Lexeme) : Prop := ∀ rest, Lexes cs ls rest

/-- If a separator follows. -/
def Open (cs : List Char) (ls : List Lexeme) : Prop :=
  ∀ x rest, IsSeparator x → Lexes cs ls (x :: rest)

variable {c x : Char} {cs ds rest : List Char} {ls ls' : List Lexeme}

theorem Lexes.append (h : Lexes cs ls (ds ++ rest)) (h' : Lexes ds ls' rest) :
    Lexes (cs ++ ds) (ls ++ ls') rest where
  scans pos := by
    obtain ⟨tokens, hscans, hls⟩ := h.scans pos
    obtain ⟨tokens', hscans', hls'⟩ := h'.scans (pos + byteSize cs)
    exact ⟨tokens ++ tokens', hscans.append hscans', by rw [List.map_append, hls, hls']⟩
  plain c hc := (List.mem_append.mp hc).elim (h.plain c) (h'.plain c)

theorem closed_nil : Closed [] [] := fun rest =>
  ⟨fun pos => ⟨[], scans_nil pos rest, rfl⟩, fun c hc => by cases hc⟩

theorem Closed.open (h : Closed cs ls) : Open cs ls := fun x rest _ => h (x :: rest)

theorem Closed.append (h : Closed cs ls) (h' : Closed ds ls') : Closed (cs ++ ds) (ls ++ ls') :=
  fun rest => (h (ds ++ rest)).append (h' rest)

theorem Closed.append_open (h : Closed cs ls) (h' : Open ds ls') : Open (cs ++ ds) (ls ++ ls') :=
  fun x rest hx => (h (ds ++ x :: rest)).append (h' x rest hx)

section

variable (hx : IsSeparator x)
include hx

theorem Open.append_closed (h : Open cs ls) (h' : Closed (x :: ds) ls') :
    Closed (cs ++ x :: ds) (ls ++ ls') :=
  fun rest => (h x (ds ++ rest) hx).append (h' rest)

theorem Open.append (h : Open cs ls) (h' : Open (x :: ds) ls') :
    Open (cs ++ x :: ds) (ls ++ ls') :=
  fun y rest hy => (h x (ds ++ y :: rest) hx).append (h' y rest hy)

end

theorem closed_blank (hc : isBlank c = true) (hplain : IsPlain c) : Closed [c] [] := fun rest =>
  ⟨fun pos => ⟨[], scans_gap (by simp [piece, hc]), rfl⟩, fun d hd => by
    rwa [List.mem_singleton.mp hd]⟩

/-- A mark that is a token by itself. -/
theorem closed_mark {kind : TokenKind} (hplain : IsPlain c)
    (h : ∀ cs, piece c cs = (.token kind, [c], cs)) :
    Closed [c] [(kind, String.ofList [c])] := fun rest =>
  ⟨fun pos => ⟨_, scans_token (h rest), rfl⟩, fun d hd => by rwa [List.mem_singleton.mp hd]⟩

theorem closed_colon : Closed [':'] [(.colon, ":")] := closed_mark (by decide) fun _ => rfl

theorem closed_leftBracket : Closed ['['] [(.leftBracket, "[")] :=
  closed_mark (by decide) fun _ => rfl

theorem closed_rightBracket : Closed [']'] [(.rightBracket, "]")] :=
  closed_mark (by decide) fun _ => rfl

/-- A piece that ends with the text ends at a separator, too. -/
theorem scans_piece {pos : Nat} {kind : TokenKind} (hx : IsSeparator x) (hcomment : c ≠ '#')
    (hquote : c ≠ '"') (hpiece : piece c cs = (.token kind, c :: cs, [])) :
    Scans pos (c :: cs)
      [⟨kind, String.ofList (c :: cs), ⟨pos, pos + byteSize (c :: cs)⟩⟩] (x :: rest) := by
  have h := hx.piece_append cs rest hcomment hquote
  rw [hpiece, List.nil_append] at h
  exact scans_token h

theorem open_piece {kind : TokenKind} (hcomment : c ≠ '#') (hquote : c ≠ '"')
    (hpiece : piece c cs = (.token kind, c :: cs, [])) (hplain : ∀ d ∈ c :: cs, IsPlain d) :
    Open (c :: cs) [(kind, String.ofList (c :: cs))] := fun _ _ hx =>
  ⟨fun _ => ⟨_, scans_piece hx hcomment hquote hpiece, rfl⟩, hplain⟩

theorem isPlain_of_isNamePart (h : isNamePart c = true) : IsPlain c := by
  refine ⟨?_, ?_⟩ <;> rintro rfl <;> cases h

theorem open_name {s : String} (h : isName s = true) : Open s.toList [(.word, s)] := by
  unfold isName at h
  split at h
  · cases h
  · rename_i c cs hs
    obtain ⟨hc, hcs⟩ := Bool.and_eq_true_iff.mp h
    have hpart : isNamePart c = true := by simp [isNamePart, hc]
    have hne {d : Char} (hd : isNameStart d = false) : c ≠ d := by
      rintro rfl
      rw [hc] at hd
      cases hd
    have hopen := open_piece (hne (by decide)) (hne (by decide)) (piece_name hc hcs)
      fun d hd => by
        rcases List.mem_cons.mp hd with rfl | hd
        · exact isPlain_of_isNamePart hpart
        · exact isPlain_of_isNamePart (List.all_eq_true.mp hcs d hd)
    rwa [← hs, String.ofList_toList] at hopen

theorem isPlain_of_isDigit (h : c.isDigit = true) : IsPlain c :=
  isPlain_of_isNamePart (by simp [isNamePart, h])

theorem isPlain_signPart (cs : List Char) : ∀ d ∈ (signPart cs).1, IsPlain d := by
  unfold signPart
  split <;> simp [IsPlain]

theorem isPlain_digitsPart (cs : List Char) : ∀ d ∈ (digitsPart cs).1, IsPlain d :=
  fun _ hd => isPlain_of_isDigit (List.mem_takeWhile_imp hd)

theorem isPlain_fractionPart (cs : List Char) : ∀ d ∈ (fractionPart cs).1, IsPlain d := by
  unfold fractionPart
  split
  · rename_i cs
    intro d hd
    rcases List.mem_cons.mp hd with rfl | hd
    · decide
    · exact isPlain_digitsPart cs d hd
  · simp

theorem isPlain_exponentPart (cs : List Char) : ∀ d ∈ (exponentPart cs).1, IsPlain d := by
  cases cs with
  | nil => simp [exponentPart]
  | cons e cs =>
    simp only [exponentPart]
    split
    · rename_i he
      intro d hd
      rcases List.mem_append.mp hd with hd | hd
      · rcases List.mem_cons.mp hd with rfl | hd
        · refine ⟨?_, ?_⟩ <;> rintro rfl <;> simp at he
        · exact isPlain_signPart cs d hd
      · exact isPlain_digitsPart _ d hd
    · simp

theorem isPlain_numberPart (cs : List Char) : ∀ d ∈ (numberPart cs).1, IsPlain d := by
  intro d hd
  simp only [numberPart, List.mem_append] at hd
  rcases hd with ((hd | hd) | hd) | hd
  · exact isPlain_signPart _ d hd
  · exact isPlain_digitsPart _ d hd
  · exact isPlain_fractionPart _ d hd
  · exact isPlain_exponentPart _ d hd

theorem open_numeral (h : (Number.numeral? cs).isSome) :
    Open cs [(.number, String.ofList cs)] := by
  cases cs with
  | nil => cases h
  | cons c cs =>
    have hpiece := piece_number h
    obtain ⟨hdigits, hend⟩ := shape_of_numeral? h
    have hlow := hdigits.head.2.1
    have hne {d : Char} (hd : d.toNat < 43) : c ≠ d := by
      rintro rfl
      omega
    have happend := numberPart_append (c :: cs)
    rw [hend, List.append_nil] at happend
    exact open_piece (hne (by decide)) (hne (by decide)) hpiece
      (happend ▸ isPlain_numberPart (c :: cs))

theorem open_natural (n : Nat) : Open (toString n).toList [(.number, toString n)] := by
  have hnumeral : (Number.numeral? (toString n).toList).isSome := by
    rw [Number.numeral?_toString]
    rfl
  have h := open_numeral hnumeral
  rwa [String.ofList_toList] at h

theorem isPlain_escape {cs : List Char} (h : '\x00' ∉ cs) :
    ∀ d ∈ Quoted.escape cs, IsPlain d := by
  fun_induction Quoted.escape cs with
  | case1 => simp
  | case2 cs ih | case3 cs ih | case4 cs ih | case5 cs ih | case6 cs ih =>
    have hrest := ih (List.not_mem_of_not_mem_cons h)
    refine List.forall_mem_cons.mpr ⟨by decide, List.forall_mem_cons.mpr ⟨by decide, hrest⟩⟩
  | case7 c cs _ _ _ hreturn _ ih =>
    refine List.forall_mem_cons.mpr ⟨⟨hreturn, ?_⟩, ih (List.not_mem_of_not_mem_cons h)⟩
    rintro rfl
    exact h List.mem_cons_self

/-- A quoted string is one token whatever follows. -/
theorem scans_quote (pos : Nat) (cs rest : List Char) :
    Scans pos (Quoted.quote cs)
      [⟨.string, String.ofList (Quoted.quote cs), ⟨pos, pos + byteSize (Quoted.quote cs)⟩⟩] rest := by
  have hpiece := piece_quote cs rest
  rw [List.append_cons] at hpiece
  exact scans_token hpiece

theorem isPlain_quote {cs : List Char} (h : '\x00' ∉ cs) : ∀ d ∈ Quoted.quote cs, IsPlain d := by
  intro d hd
  rcases List.mem_cons.mp hd with rfl | hd
  · decide
  · rcases List.mem_append.mp hd with hd | hd
    · exact isPlain_escape h d hd
    · rw [List.mem_singleton.mp hd]
      decide

theorem closed_string {cs : List Char} (h : '\x00' ∉ cs) :
    Closed (Quoted.quote cs) [(.string, String.ofList (Quoted.quote cs))] := fun rest =>
  ⟨fun pos => ⟨_, scans_quote pos cs rest, rfl⟩, isPlain_quote h⟩

/-- Plain text is scanned as it stands. -/
theorem unifyFrom_eq_self (h : ∀ c ∈ cs, IsPlain c) (pos : Nat) : unifyFrom pos cs = (cs, []) := by
  induction cs generalizing pos with
  | nil => rfl
  | cons c cs ih =>
    obtain ⟨hreturn, hnul⟩ := h c List.mem_cons_self
    have hrest := ih (fun d hd => h d (List.mem_cons_of_mem c hd)) (pos + c.utf8Size)
    simp [unifyFrom, hreturn, hrest]

theorem unifyLineEndings_eq_self (h : ∀ c ∈ cs, IsPlain c) (hmark : cs.head? ≠ some '\ufeff') :
    unifyLineEndings cs = (cs, []) := by
  unfold unifyLineEndings
  split
  · exact absurd rfl hmark
  · exact unifyFrom_eq_self h 0

end ShadingMachine.Text
