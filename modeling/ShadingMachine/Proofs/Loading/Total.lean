import ShadingMachine.Proofs.Loading.Report
import ShadingMachine.Proofs.Loading.Rounds
import ShadingMachine.Proofs.Text.Cursor

/-! Loading comes to an end for every text, with a program or an error. Whatever is cut out of the
text on the way is cut between characters of it, the loops of the reading stop of themselves, and an
error says its place in the text. -/
namespace ShadingMachine

open Text

namespace Text.Source

/-- Line and column of an offset, where the line is in the index and can be cut up to the offset. -/
def lineCol? (s : Source) (offset : Nat) : Option (Nat × Nat) := do
  let offset := min offset (byteSize s.text)
  let line := (s.lineStarts.takeWhile (· ≤ offset)).length - 1
  let start ← s.lineStarts[line]?
  let before ← cut? s.text ⟨start, byteSize (takeBytes offset s.text)⟩
  return (line, before.length)

variable {text : List Char} {span : Span} {offset : Nat}

theorem slice?_eq_slice (h : span.PlacedIn text) :
    (ofChars text).slice? span = some ((ofChars text).slice span) := by
  rw [slice?_ofChars h.start h.stop, slice_ofChars h.start h.stop]

theorem lineCol?_ofChars (h : IsBoundary text offset) :
    (ofChars text).lineCol? offset = some ((ofChars text).lineCol offset) := by
  have hoffset : byteSize (takeBytes offset text) = offset := h
  have hlines := length_takeWhile_lineStartsFrom 0 offset text
  have hstart := getD_lineStartsFrom 0 offset text
  rw [Nat.zero_add] at hlines hstart
  have hbefore := wholeLines_append_lastLine (takeBytes offset text)
  generalize hrest : dropBytes offset text = rest
  have htext : wholeLines (takeBytes offset text) ++ (lastLine (takeBytes offset text) ++ rest) =
      text := by
    rw [← List.append_assoc, hbefore, ← hrest, takeBytes_append_dropBytes]
  -- The line is in the index, and it starts behind the whole lines before the offset.
  have hindex : (0 :: lineStartsFrom 0 text)[(takeBytes offset text).count '\n']? =
      some (byteSize (wholeLines (takeBytes offset text))) := by
    have hlt : (takeBytes offset text).count '\n' < (0 :: lineStartsFrom 0 text).length := by
      rw [← hlines, List.length_cons]
      exact Nat.lt_succ_of_le (List.takeWhile_sublist _).length_le
    rw [List.getD_eq_getElem?_getD, List.getElem?_eq_getElem hlt, Option.getD_some] at hstart
    rw [List.getElem?_eq_getElem hlt, hstart]
  have hcut : cut? text ⟨byteSize (wholeLines (takeBytes offset text)), offset⟩ =
      some (lastLine (takeBytes offset text)) := by
    have hfrom := from?_byteSize (wholeLines (takeBytes offset text))
      (lastLine (takeBytes offset text) ++ rest)
    rw [htext] at hfrom
    have hrange := cut?_add hfrom
    rwa [← byteSize_append, hbefore, hoffset] at hrange
  rw [lineCol_ofChars]
  unfold lineCol? ofChars
  dsimp only
  rw [Nat.min_eq_left h.le, List.takeWhile_cons_of_pos (by simp), List.length_cons, hlines,
    Nat.add_sub_cancel, hindex, hoffset]
  show (cut? text ⟨byteSize (wholeLines (takeBytes offset text)), offset⟩ >>= _) = _
  rw [hcut]
  rfl

end Text.Source

namespace Loader

/-- An error whose place and token are looked up. -/
def errorAt? (source : Source) (cause : Cause) (span : Span) (suggestion : Option String) :
    Option LoadError := do
  let (line, column) ← source.lineCol? span.start
  let token ← source.slice? span
  return ⟨cause, String.ofList token, span, line + 1, column + 1, suggestion⟩

/-- The rest of a line from an offset on. -/
def line? (text : List Char) (start : Nat) : Option (List Char) := do
  let rest ← from? text start
  cut? text ⟨start, start + byteSize (rest.takeWhile (· != '\n'))⟩

variable {text : List Char} {span : Span} {n : Nat}

theorem errorAt?_ofChars (h : span.PlacedIn text) (cause : Cause) (suggestion : Option String) :
    errorAt? (.ofChars text) cause span suggestion =
      some (errorAt (.ofChars text) cause span suggestion) := by
  simp only [errorAt?, Source.lineCol?_ofChars h.start, Source.slice?_eq_slice h]
  rfl

theorem isSome_line? (h : IsBoundary text n) : (line? text n).isSome = true := by
  have hfrom : from? text n = some ((dropBytes n text).takeWhile (· != '\n') ++
      (dropBytes n text).dropWhile (· != '\n')) := by
    rw [from?, if_pos h, List.takeWhile_append_dropWhile]
  have hcut := cut?_add hfrom
  rw [List.takeWhile_append_dropWhile] at hfrom
  simp only [line?, hfrom, Option.bind_eq_bind, Option.bind_some, hcut, Option.isSome_some]

end Loader

/-- Looked up again, an error is the same. -/
theorem LoadError.LocatedIn.errorAt?_eq {text : List Char} {e : LoadError} (h : e.LocatedIn text) :
    Loader.errorAt? (.ofChars text) e.cause e.span e.suggestion = some e := by
  rw [Loader.errorAt?_ofChars ⟨h.ordered, h.boundary, h.stop⟩]
  obtain ⟨cause, token, span, line, column, suggestion⟩ := e
  obtain ⟨-, -, -, -, htoken, hline, hcolumn⟩ := h
  dsimp only at htoken hline hcolumn
  subst htoken hline hcolumn
  unfold Loader.errorAt
  rw [Source.lineCol_ofChars]

namespace Program

/-- A text is loaded, and what is cut out of it on the way is looked up: the tokens by a cursor, the
place and the token of an error, and for the version, which is the rest of the line behind a token,
the rest of the line behind each of them. -/
def loadAt? (text : List Char) : Option (Except LoadError Program × Log) :=
  let (unified, warnings) := unifyLineEndings text
  let source := Source.ofChars unified
  let log := (warnings.map fun d => Note.mk .warn d.message).toArray
  match scanAt? unified 0 with
  | none => none
  | some (_, d :: _) => do
    let e ← Loader.errorAt? source (.reported d.message) (d.span.getD default) none
    return (.error e, log)
  | some (tokens, []) =>
    if tokens.all fun t => (Loader.line? unified t.span.stop).isSome then
      match Loader.program.run ⟨source, tokens, 0, log⟩ with
      | .ok p r => some (.ok p, r.log)
      | .error e r => do
        let e ← Loader.errorAt? source e.cause e.span e.suggestion
        return (.error e, r.log)
    else none

/-- To make line endings alike does not make a text longer. -/
theorem byteSize_unifyLineEndings_le (text : List Char) :
    byteSize (unifyLineEndings text).1 ≤ byteSize text := by
  unfold unifyLineEndings
  split
  · rename_i rest
    rw [unifyFrom_fst]
    exact (byteSize_unified_le rest).trans (Nat.le_add_left ..)
  · rw [unifyFrom_fst]
    exact byteSize_unified_le text

theorem loadAt?_eq {text : List Char} (hsize : byteSize text < UInt32.size) :
    loadAt? text = some (load text) := by
  have hunified := (byteSize_unifyLineEndings_le text).trans_lt hsize
  have htokens : ∀ t ∈ (scan (unifyLineEndings text).1).1,
      t.span.PlacedIn (unifyLineEndings text).1 := (scanFrom_placedIn [] _).1
  have hlocated : ∀ e, (load text).1 = .error e → e.LocatedIn (unifyLineEndings text).1 :=
    fun e => locatedIn_of_load
  revert hlocated htokens
  unfold loadAt? load
  dsimp only
  rw [scanAt?_eq hunified]
  obtain ⟨tokens, faults⟩ := scan (unifyLineEndings text).1
  intro htokens hlocated
  cases faults with
  | cons d ds =>
    have he : Loader.errorAt? (.ofChars (unifyLineEndings text).1) (.reported d.message)
      (d.span.getD default) none = some _ := (hlocated _ rfl).errorAt?_eq
    simp only [he]
    rfl
  | nil =>
    have hlines : (tokens.all fun t =>
        (Loader.line? (unifyLineEndings text).1 t.span.stop).isSome) = true :=
      List.all_eq_true.mpr fun t ht => Loader.isSome_line? (htokens t ht).stop
    dsimp only at hlocated ⊢
    rw [if_pos hlines]
    generalize Loader.program.run ⟨.ofChars (unifyLineEndings text).1, tokens, 0,
      ((unifyLineEndings text).2.map fun d => Note.mk .warn d.message).toArray⟩ = result
      at hlocated ⊢
    cases result with
    | ok p r => rfl
    | error e r =>
      simp only [(hlocated e rfl).errorAt?_eq]
      rfl

/-- Loading comes to an end, and what keeps a text from loading is well located. -/
structure LoadsTotally (text : List Char) : Prop where
  /-- Nothing is looked for outside the text or inside a character. -/
  cuts : loadAt? text = some (load text)
  /-- No loop needs more rounds than there are tokens to read. -/
  ends : ∀ (r : Loader.Reading) (n : Nat), r.tokens.length ≤ n → Loader.EndsWithin r n
  located : ∀ e, (load text).1 = .error e → e.LocatedIn (unifyLineEndings text).1

theorem loadsTotally {text : List Char} (hsize : byteSize text < UInt32.size) : LoadsTotally text :=
  ⟨loadAt?_eq hsize, fun _ _ => Loader.endsWithin, fun _ => locatedIn_of_load⟩

/-- A text with characters of two bytes before the error and at it. -/
theorem loadsTotally_umlauts :
    let text := "surface # größer\r\n  bögus".toList
    byteSize text < UInt32.size ∧ LoadsTotally text ∧
      (load text).1 = .error ⟨.reported "Unexpected character: 'ö'", "ö", ⟨22, 24⟩, 2, 4, none⟩ := by
  intro text
  have hsize : byteSize text < UInt32.size := by decide
  exact ⟨hsize, loadsTotally hsize, load_of_refusal? (by decide +kernel)⟩

end Program

end ShadingMachine
