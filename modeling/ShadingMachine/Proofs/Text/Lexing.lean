import ShadingMachine.Proofs.Text.Separator
import ShadingMachine.Text.LineEnding

/-! Scanning a text piece by piece. What a part of a text is scanned to depends on what follows
only where a token may go on, so the parts of a text are scanned apart and their tokens joined. -/
namespace ShadingMachine.Text

/-- A token without its place. -/
abbrev Lexeme := TokenKind × String

def Token.lexeme (t : Token) : Lexeme := (t.kind, t.text)

/-- The part `cs` of a text, which begins at `pos` and before `rest`, is scanned to `tokens`. -/
def Scans (pos : Nat) (cs : List Char) (tokens : List Token) (rest : List Char) : Prop :=
  scanFrom pos (cs ++ rest) =
    (tokens ++ (scanFrom (pos + byteSize cs) rest).1, (scanFrom (pos + byteSize cs) rest).2)

variable {pos : Nat} {c x : Char} {cs ds rest : List Char} {tokens tokens' : List Token}

theorem Scans.eq (h : Scans pos cs tokens rest) :
    scanFrom pos (cs ++ rest) =
      (tokens ++ (scanFrom (pos + byteSize cs) rest).1, (scanFrom (pos + byteSize cs) rest).2) := h

theorem scans_nil (pos : Nat) (rest : List Char) : Scans pos [] [] rest := rfl

theorem Scans.append (h : Scans pos cs tokens (ds ++ rest))
    (h' : Scans (pos + byteSize cs) ds tokens' rest) :
    Scans pos (cs ++ ds) (tokens ++ tokens') rest := by
  have h₁ : scanFrom pos (cs ++ (ds ++ rest)) = _ := h
  have h₂ : scanFrom (pos + byteSize cs) (ds ++ rest) = _ := h'
  rw [Scans, List.append_assoc, h₁, h₂, List.append_assoc, byteSize_append, Nat.add_assoc]

section

variable {used tail : List Char} (happend : used ++ tail = c :: cs)
include happend

theorem scans_token_cons {kind : TokenKind}
    (hpiece : piece c (cs ++ rest) = (.token kind, used, tail ++ rest))
    (h : Scans (pos + byteSize used) tail tokens rest) :
    Scans pos (c :: cs)
      (⟨kind, String.ofList used, ⟨pos, pos + byteSize used⟩⟩ :: tokens) rest := by
  have hrest : scanFrom (pos + byteSize used) (tail ++ rest) = _ := h
  rw [Scans, List.cons_append, scanFrom, hpiece]
  simp only [hrest, ← happend, byteSize_append, Nat.add_assoc, List.cons_append]

theorem scans_gap_cons (hpiece : piece c (cs ++ rest) = (.gap, used, tail ++ rest))
    (h : Scans (pos + byteSize used) tail tokens rest) : Scans pos (c :: cs) tokens rest := by
  have hrest : scanFrom (pos + byteSize used) (tail ++ rest) = _ := h
  rw [Scans, List.cons_append, scanFrom, hpiece]
  simp only [hrest, ← happend, byteSize_append, Nat.add_assoc]

end

theorem scans_token {kind : TokenKind} (h : piece c (cs ++ rest) = (.token kind, c :: cs, rest)) :
    Scans pos (c :: cs)
      [⟨kind, String.ofList (c :: cs), ⟨pos, pos + byteSize (c :: cs)⟩⟩] rest :=
  scans_token_cons (List.append_nil _) h (scans_nil _ _)

theorem scans_gap (h : piece c (cs ++ rest) = (.gap, c :: cs, rest)) :
    Scans pos (c :: cs) [] rest :=
  scans_gap_cons (List.append_nil _) h (scans_nil _ _)

theorem piece_kind_ne {kind : TokenKind} (h : (piece c cs).1 = .token kind) :
    kind ≠ .endOfInput := by
  rintro rfl
  unfold piece numberPiece at h
  dsimp only at h
  repeat' split at h
  all_goals cases h

/-- In a range of the text, and not its end. -/
structure Token.Within (t : Token) (start stop : Nat) : Prop where
  kind : t.kind ≠ .endOfInput
  start_le : start ≤ t.span.start
  start_lt : t.span.start < stop

theorem byteSize_used_pos (c : Char) (cs : List Char) : 0 < byteSize (piece c cs).2.1 :=
  byteSize_pos (piece_used_ne_nil c cs)

theorem Token.Within.mono {t : Token} {start start' stop : Nat} (h : t.Within start' stop)
    (hstart : start ≤ start') : t.Within start stop :=
  ⟨h.kind, Nat.le_trans hstart h.start_le, h.start_lt⟩

/-- A text without faults and comments is scanned before a separator as if it stood alone. -/
theorem exists_scans (hx : IsSeparator x) (cs : List Char) (hcs : ∀ c ∈ cs, c ≠ '#')
    (pos : Nat) (hclean : (scanFrom pos cs).2 = []) (rest : List Char) :
    ∃ tokens, Scans pos cs tokens (x :: rest) ∧
      ∀ t ∈ tokens, t.Within pos (pos + byteSize cs) := by
  fun_induction scanFrom pos cs with
  | case1 pos => exact ⟨[], scans_nil _ _, fun t ht => by cases ht⟩
  | case2 pos c cs next tokens faults hnext kind hkind ih =>
    have hcomment := hcs c List.mem_cons_self
    have happend := piece_append c cs
    have hpos := byteSize_used_pos c cs
    have hsize : next + byteSize (piece c cs).2.2 = pos + byteSize (c :: cs) := by
      rw [← happend, byteSize_append, Nat.add_assoc]
    obtain ⟨tokens', hscans, hwithin⟩ := ih
      (fun d hd => hcs d (happend ▸ List.mem_append_right _ hd)) (hnext ▸ hclean)
    have hpiece := hx.clean_piece_append cs rest hcomment (by simp [hkind])
    rw [hkind] at hpiece
    refine ⟨_, scans_token_cons happend hpiece hscans, fun t ht => ?_⟩
    rcases List.mem_cons.mp ht with rfl | ht
    · refine ⟨piece_kind_ne hkind, Nat.le_refl _, ?_⟩
      show pos < pos + byteSize (c :: cs)
      omega
    · exact (hsize ▸ hwithin t ht).mono (Nat.le_add_right _ _)
  | case3 => cases hclean
  | case4 pos c cs next tokens faults hnext hkind ih =>
    have hcomment := hcs c List.mem_cons_self
    have happend := piece_append c cs
    have hsize : next + byteSize (piece c cs).2.2 = pos + byteSize (c :: cs) := by
      rw [← happend, byteSize_append, Nat.add_assoc]
    obtain ⟨tokens', hscans, hwithin⟩ := ih
      (fun d hd => hcs d (happend ▸ List.mem_append_right _ hd)) (hnext ▸ hclean)
    have hpiece := hx.clean_piece_append cs rest hcomment (by simp [hkind])
    rw [hkind] at hpiece
    refine ⟨_, scans_gap_cons happend hpiece hscans, fun t ht => ?_⟩
    exact (hsize ▸ hwithin t ht).mono (Nat.le_add_right _ _)

/-- Whether a text has faults does not depend on where it begins. -/
theorem faults_eq_nil (pos : Nat) (cs : List Char) (h : (scanFrom pos cs).2 = []) (pos' : Nat) :
    (scanFrom pos' cs).2 = [] := by
  fun_induction scanFrom pos cs generalizing pos' with
  | case1 => simp [scanFrom]
  | case2 pos c cs next tokens faults hnext kind hkind ih =>
    have hrest := ih (hnext ▸ h) (pos' + byteSize (piece c cs).2.1)
    rw [scanFrom, hkind]
    exact hrest
  | case3 => cases h
  | case4 pos c cs next tokens faults hnext hkind ih =>
    have hrest := ih (hnext ▸ h) (pos' + byteSize (piece c cs).2.1)
    rw [scanFrom, hkind]
    exact hrest

/-- Every token of a text stands in it. -/
theorem le_start (pos : Nat) (cs : List Char) : ∀ t ∈ (scanFrom pos cs).1, pos ≤ t.span.start := by
  fun_induction scanFrom pos cs with
  | case1 pos => simp [Span.point]
  | case2 pos c cs next tokens faults hnext kind hkind ih =>
    intro t ht
    rcases List.mem_cons.mp ht with rfl | ht
    · exact Nat.le_refl _
    · exact Nat.le_trans (Nat.le_add_right _ _) (ih t (hnext ▸ ht))
  | case3 pos c cs next tokens faults hnext cause hcause ih
  | case4 pos c cs next tokens faults hnext hkind ih =>
    intro t ht
    exact Nat.le_trans (Nat.le_add_right _ _) (ih t (hnext ▸ ht))

end ShadingMachine.Text
