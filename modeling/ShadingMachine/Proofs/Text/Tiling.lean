import ShadingMachine.Proofs.Text.Grammar
import ShadingMachine.Proofs.Text.Lines

/-! The ranges of the tokens and of the faults tile a text. They stand one behind the other, and
between them there are only blanks and comments. -/
namespace ShadingMachine.Text

namespace Span

/-- The range of some characters that stand behind others. -/
def after (before used : List Char) : Span := ⟨byteSize before, byteSize before + byteSize used⟩

/-- The offset is in the range. -/
def Covers (s : Span) (n : Nat) : Prop := s.start ≤ n ∧ n < s.stop

/-- All of the first range is before all of the second. -/
def Precedes (s t : Span) : Prop := s.stop ≤ t.start

/-- The range of a comment that is outside the other ranges and runs to the end of its line. -/
structure IsComment (text : List Char) (others : List Span) (s : Span) : Prop where
  spelled : ∃ line, (Source.ofChars text).slice s = '#' :: line ∧ '\n' ∉ line
  ended : EndsLine (dropBytes s.stop text)
  apart : ∀ t ∈ others, t.Precedes s ∨ s.Precedes t

end Span

/-- A token is what stands in its range, spelled as its kind says; a word or a number ends where a
name would. -/
structure Token.SpelledIn (text : List Char) (t : Token) : Prop where
  slice : (Source.ofChars text).slice t.span = t.text.toList
  spells : t.kind.Spells t.text.toList
  maximal : t.kind = .word ∨ t.kind = .number → EndsName (dropBytes t.span.stop text)

/-- A text in tokens, faults, and gaps. The ranges of tokens and faults are listed in their
order. -/
inductive Tiling : List Char → List Char → List Span → List Token → List Diagnostic → Prop
  | done {before : List Char} :
    Tiling before [] [.point (byteSize before)]
      [⟨.endOfInput, "", .point (byteSize before)⟩] []
  | gap {before used rest : List Char} {spans : List Span} {tokens : List Token}
    {faults : List Diagnostic} : IsGap rest used →
    Tiling (before ++ used) rest spans tokens faults →
    Tiling before (used ++ rest) spans tokens faults
  | token {before used rest : List Char} {spans : List Span} {tokens : List Token}
    {faults : List Diagnostic} {kind : TokenKind} : kind.Spells used → used ≠ [] →
    (kind = .word ∨ kind = .number → EndsName rest) →
    Tiling (before ++ used) rest spans tokens faults →
    Tiling before (used ++ rest) (.after before used :: spans)
      (⟨kind, String.ofList used, .after before used⟩ :: tokens) faults
  | fault {before used rest : List Char} {spans : List Span} {tokens : List Token}
    {faults : List Diagnostic} {cause : Cause} : used ≠ [] →
    Tiling (before ++ used) rest spans tokens faults →
    Tiling before (used ++ rest) (.after before used :: spans) tokens
      (.ofCause .error cause (some (.after before used)) :: faults)

/-- What is read of a text, with the ranges of tokens and faults in their order. -/
structure Tiled (text : List Char) (spans : List Span) (tokens : List Token)
    (faults : List Diagnostic) : Prop where
  /-- Every range is that of a token or of a fault. -/
  all : spans.Perm (tokens.map (·.span) ++ faults.filterMap (·.span))
  tokensInOrder : (tokens.map (·.span)).Sublist spans
  faultsInOrder : (faults.filterMap (·.span)).Sublist spans
  apart : spans.Pairwise Span.Precedes
  placed : ∀ s ∈ spans, IsBoundary text s.start ∧ IsBoundary text s.stop
  /-- Only the token at the end of the text is empty. -/
  ended : ∃ inner, tokens = inner ++ [⟨.endOfInput, "", .point (byteSize text)⟩] ∧
    ∀ t ∈ inner, t.kind ≠ .endOfInput ∧ t.span.start < t.span.stop
  faulty : ∀ d ∈ faults, d.isError ∧ ∃ s, d.span = some s ∧ s.start < s.stop
  spelled : ∀ t ∈ tokens, t.SpelledIn text
  outside : ∀ before c rest, text = before ++ c :: rest →
    (∀ s ∈ spans, ¬s.Covers (byteSize before)) →
    isBlank c ∨ ∃ s : Span, s.IsComment text spans ∧ s.Covers (byteSize before)

theorem tiling_scanFrom (before cs : List Char) :
    ∃ spans, Tiling before cs spans (scanFrom (byteSize before) cs).1
      (scanFrom (byteSize before) cs).2 := by
  generalize hpos : byteSize before = pos
  fun_induction scanFrom pos cs generalizing before with
  | case1 pos =>
    subst hpos
    exact ⟨_, .done⟩
  | case2 pos c cs next tokens faults hnext kind hkind ih =>
    subst hpos
    obtain ⟨spans, hrest⟩ := ih (before ++ (piece c cs).2.1) (byteSize_append ..)
    have hpiece := isPiece_piece c cs
    rw [hkind] at hpiece
    rw [hnext] at hrest
    cases hpiece with
    | token hspells hne hmaximal =>
      rw [← piece_append c cs]
      exact ⟨_, .token hspells hne hmaximal hrest⟩
  | case3 pos c cs next tokens faults hnext cause hcause ih =>
    subst hpos
    obtain ⟨spans, hrest⟩ := ih (before ++ (piece c cs).2.1) (byteSize_append ..)
    have hpiece := isPiece_piece c cs
    rw [hcause] at hpiece
    rw [hnext] at hrest
    cases hpiece with
    | fault hne =>
      rw [← piece_append c cs]
      exact ⟨_, .fault hne hrest⟩
  | case4 pos c cs next tokens faults hnext hkind ih =>
    subst hpos
    obtain ⟨spans, hrest⟩ := ih (before ++ (piece c cs).2.1) (byteSize_append ..)
    have hpiece := isPiece_piece c cs
    rw [hkind] at hpiece
    rw [hnext] at hrest
    cases hpiece with
    | gap hgap =>
      rw [← piece_append c cs]
      exact ⟨_, .gap hgap hrest⟩

variable {before used rest cs : List Char} {spans : List Span} {tokens : List Token}
  {faults : List Diagnostic}

theorem Span.isBoundary_after (before used rest : List Char) :
    IsBoundary (before ++ (used ++ rest)) (after before used).start ∧
      IsBoundary (before ++ (used ++ rest)) (after before used).stop := by
  refine ⟨isBoundary_byteSize (List.prefix_append ..), ?_⟩
  rw [← List.append_assoc]
  show IsBoundary _ (byteSize before + byteSize used)
  rw [← byteSize_append]
  exact isBoundary_byteSize (List.prefix_append ..)

theorem Span.slice_after (before used rest : List Char) :
    (Source.ofChars (before ++ (used ++ rest))).slice (after before used) = used := by
  obtain ⟨hstart, hstop⟩ := Span.isBoundary_after before used rest
  rw [Source.slice_ofChars hstart hstop]
  show takeBytes (byteSize before + byteSize used - byteSize before)
    (dropBytes (byteSize before) (before ++ (used ++ rest))) = used
  rw [dropBytes_byteSize_append, Nat.add_sub_cancel_left, takeBytes_byteSize_append]

theorem Span.dropBytes_after (before used rest : List Char) :
    dropBytes (after before used).stop (before ++ (used ++ rest)) = rest := by
  show dropBytes (byteSize before + byteSize used) _ = rest
  rw [← byteSize_append, ← List.append_assoc, dropBytes_byteSize_append]

theorem Span.start_lt_stop_after (before : List Char) (hne : used ≠ []) :
    (after before used).start < (after before used).stop :=
  Nat.lt_add_of_pos_right (byteSize_pos hne)

theorem Span.covers_after (before front back : List Char) (c : Char) :
    (after before (front ++ c :: back)).Covers (byteSize before + byteSize front) := by
  have := c.utf8Size_pos
  refine ⟨Nat.le_add_right .., ?_⟩
  show _ < byteSize before + byteSize (front ++ c :: back)
  rw [byteSize_append, byteSize_cons]
  omega

/-- A character of two parts is in one of them. -/
theorem append_eq_append_cons {front back : List Char} {c : Char}
    (h : used ++ rest = front ++ c :: back) :
    (∃ mid, front = used ++ mid ∧ rest = mid ++ c :: back) ∨ ∃ mid, used = front ++ c :: mid := by
  rcases List.append_eq_append_iff.mp h with ⟨mid, hfront, hrest⟩ | ⟨mid, hused, hback⟩
  · exact .inl ⟨mid, hfront, hrest⟩
  · cases mid with
    | nil =>
      rw [List.append_nil] at hused
      exact .inl ⟨[], by rw [hused, List.append_nil], hback.symm⟩
    | cons d mid =>
      cases hback
      exact .inr ⟨mid, hused⟩

namespace Tiling

theorem le_start (h : Tiling before cs spans tokens faults) :
    ∀ s ∈ spans, byteSize before ≤ s.start := by
  induction h with
  | done => exact List.forall_mem_singleton.mpr le_rfl
  | gap _ _ ih =>
    rw [byteSize_append] at ih
    exact fun s hs => (Nat.le_add_right ..).trans (ih s hs)
  | token _ _ _ _ ih | fault _ _ ih =>
    rw [byteSize_append] at ih
    exact List.forall_mem_cons.mpr ⟨le_rfl, fun s hs => (Nat.le_add_right ..).trans (ih s hs)⟩

/-- The first range is before the others. -/
theorem precedes (h : Tiling (before ++ used) cs spans tokens faults) :
    ∀ s ∈ spans, (Span.after before used).Precedes s := by
  intro s hs
  have hle := h.le_start s hs
  rw [byteSize_append] at hle
  exact hle

theorem apart (h : Tiling before cs spans tokens faults) : spans.Pairwise Span.Precedes := by
  induction h with
  | done => exact List.pairwise_singleton ..
  | gap _ _ ih => exact ih
  | token _ _ _ hrest ih | fault _ hrest ih => exact .cons hrest.precedes ih

theorem all (h : Tiling before cs spans tokens faults) :
    spans.Perm (tokens.map (·.span) ++ faults.filterMap (·.span)) := by
  induction h with
  | done => exact .refl _
  | gap _ _ ih => exact ih
  | token _ _ _ _ ih => exact ih.cons _
  | fault _ _ ih => exact (ih.cons _).trans List.perm_middle.symm

theorem tokensInOrder (h : Tiling before cs spans tokens faults) :
    (tokens.map (·.span)).Sublist spans := by
  induction h with
  | done => exact .refl _
  | gap _ _ ih => exact ih
  | token _ _ _ _ ih => exact ih.cons_cons _
  | fault _ _ ih => exact ih.cons _

theorem faultsInOrder (h : Tiling before cs spans tokens faults) :
    (faults.filterMap (·.span)).Sublist spans := by
  induction h with
  | done => exact List.nil_sublist _
  | gap _ _ ih => exact ih
  | token _ _ _ _ ih => exact ih.cons _
  | fault _ _ ih => exact ih.cons_cons _

theorem placed (h : Tiling before cs spans tokens faults) :
    ∀ s ∈ spans, IsBoundary (before ++ cs) s.start ∧ IsBoundary (before ++ cs) s.stop := by
  induction h with
  | @done before =>
    have hend := isBoundary_byteSize (List.prefix_append before [])
    exact List.forall_mem_singleton.mpr ⟨hend, hend⟩
  | gap _ _ ih =>
    rw [List.append_assoc] at ih
    exact ih
  | token _ _ _ _ ih | fault _ _ ih =>
    rw [List.append_assoc] at ih
    exact List.forall_mem_cons.mpr ⟨Span.isBoundary_after .., ih⟩

theorem ended (h : Tiling before cs spans tokens faults) :
    ∃ inner, tokens = inner ++ [⟨.endOfInput, "", .point (byteSize (before ++ cs))⟩] ∧
      ∀ t ∈ inner, t.kind ≠ .endOfInput ∧ t.span.start < t.span.stop := by
  induction h with
  | @done before =>
    refine ⟨[], ?_, fun t ht => nomatch ht⟩
    rw [List.append_nil, List.nil_append]
  | gap _ _ ih =>
    rw [List.append_assoc] at ih
    exact ih
  | @token before used rest spans tokens faults kind hspells hne _ _ ih =>
    obtain ⟨inner, heq, hinner⟩ := ih
    rw [List.append_assoc] at heq
    refine ⟨⟨kind, String.ofList used, .after before used⟩ :: inner, congrArg _ heq,
      List.forall_mem_cons.mpr ⟨⟨?_, Span.start_lt_stop_after before hne⟩, hinner⟩⟩
    rintro rfl
    cases hspells
    exact hne rfl
  | fault _ _ ih =>
    rw [List.append_assoc] at ih
    exact ih

theorem faulty (h : Tiling before cs spans tokens faults) :
    ∀ d ∈ faults, d.isError ∧ ∃ s, d.span = some s ∧ s.start < s.stop := by
  induction h with
  | done => exact fun d hd => nomatch hd
  | gap _ _ ih => exact ih
  | token _ _ _ _ ih => exact ih
  | fault hne _ ih =>
    exact List.forall_mem_cons.mpr ⟨⟨rfl, _, rfl, Span.start_lt_stop_after _ hne⟩, ih⟩

theorem spelled (h : Tiling before cs spans tokens faults) :
    ∀ t ∈ tokens, t.SpelledIn (before ++ cs) := by
  induction h with
  | @done before =>
    refine List.forall_mem_singleton.mpr ⟨Span.slice_after before [] [], .endOfInput, fun h => ?_⟩
    rcases h with h | h <;> cases h
  | gap _ _ ih =>
    rw [List.append_assoc] at ih
    exact ih
  | @token before used rest spans tokens faults kind hspells hne hmaximal _ ih =>
    rw [List.append_assoc] at ih
    refine List.forall_mem_cons.mpr ⟨⟨?_, ?_, fun hkind => ?_⟩, ih⟩
    · rw [Span.slice_after, String.toList_ofList]
    · rw [String.toList_ofList]
      exact hspells
    · rw [Span.dropBytes_after]
      exact hmaximal hkind
  | fault _ _ ih =>
    rw [List.append_assoc] at ih
    exact ih

/-- A character outside the ranges. -/
theorem outside (h : Tiling before cs spans tokens faults) {front back : List Char} {c : Char}
    (heq : cs = front ++ c :: back)
    (hfree : ∀ s ∈ spans, ¬s.Covers (byteSize before + byteSize front)) :
    isBlank c ∨ ∃ s : Span, s.IsComment (before ++ cs) spans ∧ byteSize before ≤ s.start ∧
      s.Covers (byteSize before + byteSize front) := by
  induction h generalizing front with
  | done => exact absurd heq.symm (List.append_ne_nil_of_right_ne_nil _ (List.cons_ne_nil _ _))
  | @gap before used rest spans tokens faults hgap hrest ih =>
    rcases append_eq_append_cons heq with ⟨mid, rfl, hmid⟩ | ⟨mid, rfl⟩
    · simp only [byteSize_append, ← Nat.add_assoc] at ih hfree ⊢
      refine (ih hmid hfree).imp id fun ⟨s, hs, hstart, hcovers⟩ => ?_
      rw [List.append_assoc] at hs
      exact ⟨s, hs, (Nat.le_add_right ..).trans hstart, hcovers⟩
    · generalize hused : front ++ c :: mid = used at hgap hrest
      cases hgap with
      | blank hblank =>
        have hmem : c ∈ front ++ c :: mid := List.mem_append_right _ List.mem_cons_self
        rw [hused] at hmem
        exact .inl (List.mem_singleton.mp hmem ▸ hblank)
      | @comment line hline hend =>
        refine .inr ⟨.after before ('#' :: line), ⟨⟨line, Span.slice_after .., hline⟩, ?_,
          fun s hs => .inr (hrest.precedes s hs)⟩, le_rfl, hused ▸ Span.covers_after ..⟩
        rw [Span.dropBytes_after]
        exact hend
  | @token before used rest spans _ _ _ _ _ _ hrest ih
  | @fault before used rest spans _ _ _ _ hrest ih =>
    rcases append_eq_append_cons heq with ⟨mid, rfl, hmid⟩ | ⟨mid, rfl⟩
    · simp only [byteSize_append, ← Nat.add_assoc] at ih hfree ⊢
      refine (ih hmid fun s hs => hfree s (List.mem_cons_of_mem _ hs)).imp id
        fun ⟨s, hs, hstart, hcovers⟩ => ?_
      rw [List.append_assoc] at hs
      exact ⟨s, ⟨hs.spelled, hs.ended, List.forall_mem_cons.mpr ⟨.inl hstart, hs.apart⟩⟩,
        (Nat.le_add_right ..).trans hstart, hcovers⟩
    · exact absurd (Span.covers_after ..) (hfree _ List.mem_cons_self)

end Tiling

/-- What is read of a text tiles it. -/
theorem tiled_scan (text : List Char) :
    ∃ spans, Tiled text spans (scan text).1 (scan text).2 := by
  obtain ⟨spans, h⟩ := tiling_scanFrom [] text
  refine ⟨spans, h.all, h.tokensInOrder, h.faultsInOrder, h.apart, h.placed, h.ended, h.faulty,
    h.spelled, fun before c rest heq hfree => ?_⟩
  have hcovers (s : Span) (n : Nat) : s.Covers (byteSize [] + n) ↔ s.Covers n := by
    rw [byteSize_nil, Nat.zero_add]
  obtain hblank | ⟨s, hs, -, hmem⟩ := h.outside heq fun s hs => mt (hcovers s _).mp (hfree s hs)
  · exact .inl hblank
  · exact .inr ⟨s, hs, (hcovers s _).mp hmem⟩

end ShadingMachine.Text
