import ShadingMachine.Proofs.Loading.Contract
import ShadingMachine.Proofs.Text.Lines

/-! Where errors are reported. A reading stays at places of its text, between characters; every
error is reported at such a place, by its line and column. -/
namespace ShadingMachine

open Text

namespace Text

/-- A range between characters of a text. -/
structure Span.PlacedIn (text : List Char) (s : Span) : Prop where
  ordered : s.start ≤ s.stop
  start : IsBoundary text s.start
  stop : IsBoundary text s.stop

end Text

/-- The error is about a range of the text, its token is what stands there, and its line and column
say where the range starts. -/
structure LoadError.LocatedIn (text : List Char) (e : LoadError) : Prop where
  ordered : e.span.start ≤ e.span.stop
  within : e.span.stop ≤ byteSize text
  boundary : IsBoundary text e.span.start
  stop : IsBoundary text e.span.stop
  token : e.token = String.ofList ((Source.ofChars text).slice e.span)
  line : e.line = (placeAfter (takeBytes e.span.start text)).1 + 1
  column : e.column = (placeAfter (takeBytes e.span.start text)).2 + 1

theorem Loader.locatedIn_errorAt {text : List Char} {span : Span} (h : span.PlacedIn text)
    (cause : Cause) (suggestion : Option String) :
    (errorAt (.ofChars text) cause span suggestion).LocatedIn text := by
  refine ⟨h.ordered, h.stop.le, h.start, h.stop, rfl, ?_, ?_⟩
  · show ((Source.ofChars text).lineCol span.start).1 + 1 = _
    rw [Source.lineCol_ofChars]
    rfl
  · show ((Source.ofChars text).lineCol span.start).2 + 1 = _
    rw [Source.lineCol_ofChars]
    rfl

namespace Text

theorem isBoundary_append (before rest : List Char) :
    IsBoundary (before ++ rest) (byteSize before) :=
  isBoundary_byteSize (List.prefix_append before rest)

/-- A piece of a text is in it, and what comes after the piece too. -/
theorem piece_placedIn (before : List Char) (c : Char) (cs : List Char) :
    Span.PlacedIn (before ++ c :: cs)
        ⟨byteSize before, byteSize before + byteSize (piece c cs).2.1⟩ ∧
      before ++ (piece c cs).2.1 ++ (piece c cs).2.2 = before ++ c :: cs := by
  have happend : before ++ (piece c cs).2.1 ++ (piece c cs).2.2 = before ++ c :: cs := by
    rw [List.append_assoc, piece_append]
  have hstop := isBoundary_append (before ++ (piece c cs).2.1) (piece c cs).2.2
  rw [happend, byteSize_append] at hstop
  exact ⟨⟨Nat.le_add_right .., isBoundary_append before (c :: cs), hstop⟩, happend⟩

/-- The tokens and the faults of a text are in it. -/
theorem scanFrom_placedIn (before cs : List Char) :
    (∀ t ∈ (scanFrom (byteSize before) cs).1, t.span.PlacedIn (before ++ cs)) ∧
      ∀ d ∈ (scanFrom (byteSize before) cs).2,
        ∃ span, d.span = some span ∧ span.PlacedIn (before ++ cs) := by
  generalize hpos : byteSize before = pos
  fun_induction scanFrom pos cs generalizing before with
  | case1 pos =>
    have hend := isBoundary_append before []
    rw [hpos] at hend
    refine ⟨fun t ht => ?_, fun d hd => by cases hd⟩
    rw [List.mem_singleton.mp ht]
    exact ⟨le_rfl, hend, hend⟩
  | case2 pos c cs next tokens faults hnext kind hkind ih =>
    obtain ⟨hplaced, happend⟩ := piece_placedIn before c cs
    have hrest := ih (before ++ (piece c cs).2.1) (by rw [byteSize_append, hpos])
    rw [happend, hnext] at hrest
    rw [hpos] at hplaced
    exact ⟨List.forall_mem_cons.mpr ⟨hplaced, hrest.1⟩, hrest.2⟩
  | case3 pos c cs next tokens faults hnext cause hcause ih =>
    obtain ⟨hplaced, happend⟩ := piece_placedIn before c cs
    have hrest := ih (before ++ (piece c cs).2.1) (by rw [byteSize_append, hpos])
    rw [happend, hnext] at hrest
    rw [hpos] at hplaced
    exact ⟨hrest.1, List.forall_mem_cons.mpr ⟨⟨_, rfl, hplaced⟩, hrest.2⟩⟩
  | case4 pos c cs next tokens faults hnext hkind ih =>
    obtain ⟨-, happend⟩ := piece_placedIn before c cs
    have hrest := ih (before ++ (piece c cs).2.1) (by rw [byteSize_append, hpos])
    rw [happend, hnext] at hrest
    exact hrest

end Text

namespace Loader

variable {α : Type} {text : List Char}

/-- What is still to be read, and what was read last, are in the text. -/
structure Reading.PlacedIn (text : List Char) (r : Reading) : Prop where
  source : r.source = .ofChars text
  tokens : ∀ t ∈ r.tokens, t.span.PlacedIn text
  lastEnd : IsBoundary text r.lastEnd

/-- Reading stays in the text, and what is returned has the property; an error is in the text. -/
def StaysIn (text : List Char) (x : Load α) (P : α → Prop) : Prop :=
  ∀ r, Reading.PlacedIn text r → match x r with
    | .ok a r' => P a ∧ r'.PlacedIn text
    | .error e _ => e.LocatedIn text

/-- Between characters of a text. -/
def Terms.placed (text : List Char) : Terms where
  reading := Reading.PlacedIn text
  token t := t.span.PlacedIn text
  range := Span.PlacedIn text
  error := LoadError.LocatedIn text
  ranged ht := ht
  peeked := by
    rintro ⟨source, tokens, lastEnd, log⟩ hr
    cases tokens with
    | nil =>
      have hend := isBoundary_append text []
      rw [List.append_nil] at hend
      obtain rfl := hr.source
      exact ⟨le_rfl, hend, hend⟩
    | cons t ts => exact hr.tokens t List.mem_cons_self
  passed hr :=
    have ⟨ht, hrest⟩ := List.forall_mem_cons.mp hr.tokens
    ⟨hr.source, hrest, ht.stop⟩
  dropped hr hts := ⟨hr.source, fun t ht => hr.tokens t (hts.mem ht), hr.lastEnd⟩
  noted _ hr := ⟨hr.source, hr.tokens, hr.lastEnd⟩
  ended hr := ⟨le_rfl, hr.lastEnd, hr.lastEnd⟩
  reported suggestion hr hspan _ := by
    rw [hr.source]
    exact locatedIn_errorAt hspan _ suggestion
  misread hr ht _ _ := by
    rw [hr.source]
    exact locatedIn_errorAt ht _ none

theorem staysIn_program : StaysIn text program fun _ => True := keeps_program (T := .placed text)

end Loader

/-- What keeps a text from loading is reported at a place of the text with its line endings made
alike, by the line and column of that place. -/
theorem Program.locatedIn_of_load {text : List Char} {e : LoadError}
    (h : (load text).1 = .error e) : e.LocatedIn (unifyLineEndings text).1 := by
  obtain ⟨htokens, hfaults⟩ := scanFrom_placedIn [] (unifyLineEndings text).1
  unfold load at h
  dsimp only at h
  split at h
  · rename_i d ds hscan
    cases h
    obtain ⟨span, hspan, hplaced⟩ := hfaults d (by
      show d ∈ (scan _).2
      rw [hscan]
      exact List.mem_cons_self)
    rw [hspan]
    exact Loader.locatedIn_errorAt hplaced _ none
  · have hstays := Loader.staysIn_program
      ⟨.ofChars (unifyLineEndings text).1, (scan (unifyLineEndings text).1).1, 0,
        ((unifyLineEndings text).2.map fun d => Note.mk .warn d.message).toArray⟩
      ⟨rfl, htokens, isBoundary_append [] _⟩
    split at h
    · cases h
    · rename_i e' r heq
      cases h
      rw [EStateM.run] at heq
      rw [heq] at hstays
      exact hstays

end ShadingMachine
