import Mathlib.Data.Prod.Lex
import Mathlib.Order.Monotone.Defs
import ShadingMachine.Proofs.Text.Lines

/-! Where an offset stands in its text, and what a report shows of that place. The text is cut at
the offset into the whole lines above, what is before the offset on its own line, and the rest;
the line, the column, the quoted line and the carets are all told from the three parts. -/
namespace ShadingMachine.Text

/-- An offset has whole lines above it and part of its own line before it. It is at or inside the
first character of the rest, or anywhere at or past the end if there is no rest. -/
structure CutAt (text : List Char) (offset : Nat) (above before rest : List Char) : Prop where
  parts : above ++ before ++ rest = text
  whole_lines : above = [] ∨ above.getLast? = some '\n'
  one_line : '\n' ∉ before
  fits : byteSize (above ++ before) ≤ offset
  next : ∀ c ∈ rest.head?, offset < byteSize (above ++ before) + c.utf8Size

section Cut

variable {offset : Nat} {text above before rest : List Char}

theorem lt_of_mem_head?_dropBytes {c : Char} (h : c ∈ (dropBytes offset text).head?) :
    offset < byteSize (takeBytes offset text) + c.utf8Size := by
  induction text generalizing offset with
  | nil => simp [dropBytes] at h
  | cons d text ih =>
    by_cases hd : d.utf8Size ≤ offset
    · rw [dropBytes, if_pos hd] at h
      have := ih h
      simp only [takeBytes, if_pos hd, byteSize_cons]
      omega
    · rw [dropBytes, if_neg hd] at h
      obtain rfl : d = c := by simpa using h
      simp only [takeBytes, if_neg hd, byteSize_nil]
      omega

theorem takeBytes_eq_nil (h : ∀ c ∈ text.head?, offset < c.utf8Size) :
    takeBytes offset text = [] := by
  cases text with
  | nil => rfl
  | cons c text =>
    have := h c rfl
    exact if_neg (by omega)

theorem getLast?_wholeLines (cs : List Char) :
    wholeLines cs = [] ∨ (wholeLines cs).getLast? = some '\n' := by
  by_cases h : wholeLines cs = []
  · exact .inl h
  · right
    have hlast := List.rdropWhile_last_not (· != '\n') cs h
    rw [List.getLast?_eq_some_getLast h]
    simpa [wholeLines] using hlast

theorem lastLine_of_getLast? {cs : List Char} (h : cs = [] ∨ cs.getLast? = some '\n') :
    lastLine cs = [] := by
  obtain rfl | h := h
  · rfl
  · obtain ⟨ds, rfl⟩ := List.getLast?_eq_some_iff.mp h
    simp [lastLine]

theorem cutAt (text : List Char) (offset : Nat) :
    CutAt text offset (wholeLines (takeBytes offset text)) (lastLine (takeBytes offset text))
      (dropBytes offset text) := by
  have hparts := wholeLines_append_lastLine (takeBytes offset text)
  constructor
  case parts => rw [hparts, takeBytes_append_dropBytes]
  case whole_lines => exact getLast?_wholeLines _
  case one_line => exact newline_notMem_lastLine _
  case fits => simpa only [hparts] using byteSize_takeBytes_le offset text
  case next => simpa only [hparts] using fun c hc => lt_of_mem_head?_dropBytes hc

namespace CutAt

variable (h : CutAt text offset above before rest)
include h

theorem takeBytes_eq : takeBytes offset text = above ++ before := by
  have hrest : takeBytes (offset - byteSize (above ++ before)) rest = [] := by
    apply takeBytes_eq_nil
    intro c hc
    have := h.next c hc
    have := h.fits
    omega
  rw [← h.parts, takeBytes_append h.fits, hrest, List.append_nil]

theorem dropBytes_eq : dropBytes offset text = rest := by
  have hparts := takeBytes_append_dropBytes offset text
  rw [h.takeBytes_eq] at hparts
  exact List.append_cancel_left (hparts.trans h.parts.symm)

theorem lastLine_eq : lastLine (above ++ before) = before := by
  simp [lastLine_append_of_notMem above h.one_line, lastLine_of_getLast? h.whole_lines]

theorem placeAfter_eq : placeAfter (above ++ before) = (above.count '\n', before.length) := by
  simp [placeAfter, h.lastLine_eq, List.count_eq_zero.mpr h.one_line]

theorem lineCol_eq : (Source.ofChars text).lineCol offset = (above.count '\n', before.length) := by
  rw [Source.lineCol_ofChars, h.takeBytes_eq, h.placeAfter_eq]

theorem quotedLine_eq : Diagnostic.quotedLine (.ofChars text) offset =
    before ++ rest.takeWhile (· != '\n') := by
  rw [Diagnostic.quotedLine_ofChars, h.takeBytes_eq, h.dropBytes_eq, h.lastLine_eq]

end CutAt

end Cut

section Split

theorem length_splitOn_newline (cs : List Char) :
    (cs.splitOn '\n').length = cs.count '\n' + 1 := by
  induction cs with
  | nil => simp
  | cons c cs ih =>
    by_cases hc : c = '\n' <;> simp [List.splitOn_cons_eq_if_modifyHead, hc, ih]

theorem head?_splitOn_newline (cs : List Char) :
    (cs.splitOn '\n').head? = some (cs.takeWhile (· != '\n')) := by
  induction cs with
  | nil => simp
  | cons c cs ih =>
    by_cases hc : c = '\n'
    · simp [List.splitOn_cons_eq_if_modifyHead, hc]
    · simp [List.splitOn_cons_eq_if_modifyHead, hc, ih]

theorem splitOn_newline_append (as bs : List Char) :
    (as ++ '\n' :: bs).splitOn '\n' = as.splitOn '\n' ++ bs.splitOn '\n' :=
  List.splitOnP_append_cons as bs rfl

/-- The line with a number is the beginning of what follows that many newlines. -/
theorem getElem?_splitOn_newline {above : List Char} (rest : List Char)
    (h : above = [] ∨ above.getLast? = some '\n') :
    ((above ++ rest).splitOn '\n')[above.count '\n']? = some (rest.takeWhile (· != '\n')) := by
  rw [← head?_splitOn_newline, List.head?_eq_getElem?]
  obtain rfl | h := h
  · rfl
  · obtain ⟨lines, rfl⟩ := List.getLast?_eq_some_iff.mp h
    have hlength := length_splitOn_newline lines
    simp [splitOn_newline_append, List.getElem?_append_right, hlength]

theorem CutAt.getElem?_splitOn {offset : Nat} {text above before rest : List Char}
    (h : CutAt text offset above before rest) :
    (text.splitOn '\n')[above.count '\n']? = some (before ++ rest.takeWhile (· != '\n')) := by
  have hbefore : ∀ c ∈ before, (c != '\n') = true := by
    intro c hc
    simpa using fun hnew : c = '\n' => h.one_line (hnew ▸ hc)
  rw [← h.parts, List.append_assoc, getElem?_splitOn_newline _ h.whole_lines,
    List.takeWhile_append_of_pos hbefore]

end Split

section Order

/-- Every character after a place makes it a later one. -/
theorem placeAfter_lt (cs : List Char) {ds : List Char} (hds : ds ≠ []) :
    toLex (placeAfter cs) < toLex (placeAfter (cs ++ ds)) := by
  rw [Prod.Lex.toLex_lt_toLex]
  by_cases hnew : '\n' ∈ ds
  · left
    have := List.count_pos_iff.mpr hnew
    simp only [placeAfter, List.count_append]
    omega
  · right
    have := List.length_pos_iff.mpr hds
    simp only [placeAfter, List.count_append, List.count_eq_zero.mpr hnew,
      lastLine_append_of_notMem cs hnew, List.length_append]
    omega

theorem IsBoundary.exists_takeBytes_eq {text : List Char} {m n : Nat} (hm : IsBoundary text m)
    (hn : IsBoundary text n) (h : m < n) :
    ∃ between ≠ [], takeBytes n text = takeBytes m text ++ between := by
  have hfront : takeBytes m text <+: text := ⟨_, takeBytes_append_dropBytes m text⟩
  obtain ⟨between, hbetween⟩ := prefix_takeBytes (n := n) hfront (by rw [hm]; omega)
  refine ⟨between, ?_, hbetween.symm⟩
  rintro rfl
  rw [List.append_nil] at hbetween
  rw [IsBoundary, ← hbetween, hm] at hn
  omega

theorem strictMonoOn_lineCol (text : List Char) :
    StrictMonoOn (fun n => toLex ((Source.ofChars text).lineCol n)) {n | IsBoundary text n} := by
  intro m hm n hn h
  obtain ⟨between, hne, hbetween⟩ := IsBoundary.exists_takeBytes_eq hm hn h
  simpa only [Source.lineCol_ofChars, hbetween] using placeAfter_lt _ hne

end Order

/-- How many characters of a text are between two of its boundaries. -/
theorem IsBoundary.length_between {text : List Char} {m n : Nat} (hm : IsBoundary text m)
    (hn : IsBoundary text n) : (takeBytes (n - m) (dropBytes m text)).length =
      (takeBytes n text).length - (takeBytes m text).length := by
  by_cases h : m ≤ n
  · have htaken := takeBytes_append (n := n) (by rwa [hm]) (dropBytes m text)
    rw [takeBytes_append_dropBytes, hm] at htaken
    rw [htaken, List.length_append, Nat.add_sub_cancel_left]
  · obtain ⟨between, -, hbetween⟩ := IsBoundary.exists_takeBytes_eq hn hm (by omega)
    rw [Nat.sub_eq_zero_of_le (by omega : n ≤ m), takeBytes_zero, hbetween, List.length_append]
    exact (Nat.sub_eq_zero_of_le (Nat.le_add_right ..)).symm

namespace Diagnostic

/-- What a report begins with: how severe it is, its number if it has one, and the file. -/
def heading (d : Diagnostic) (name : String) : String :=
  d.severity.word ++ (d.code.elim "" fun c => s!" [{c}]") ++ ": " ++ name ++ ":"

/-- What a report ends with, if something is suggested. -/
def closing (d : Diagnostic) : String := d.suggestion.elim "" fun s => s!"\n  = suggestion: {s}"

theorem ofList_caretLines (line : List Char) (column width : Nat) :
    String.ofList (caretLines line column width) = "\n  | " ++ String.ofList line ++ "\n  | " ++
      String.ofList (List.replicate column ' ' ++ List.replicate (max 1 width) '^') := by
  unfold caretLines
  generalize "\n  | " = gutter
  apply String.toList_injective
  simp [Nat.max_comm 1]

/-- A report about a range is about the character that the range begins in; there is none where the
range cannot be cut out of the text. -/
theorem render?_eq {d : Diagnostic} {span : Span} {text : List Char} {line column : Nat}
    (hspan : d.span = some span)
    (hplace : (Source.ofChars text).lineCol span.start = (line, column)) (name : String) :
    d.render? name (.ofChars text) = ((Source.ofChars text).slice? span).map fun range =>
      d.heading name ++ (s!"{line + 1}:{column + 1}: {d.message}" ++ String.ofList
        (caretLines (quotedLine (.ofChars text) span.start) column range.length)) ++ d.closing := by
  have hrounded : (Source.ofChars text).lineCol (byteSize (takeBytes span.start text)) =
      (line, column) := by
    rw [← hplace, Source.lineCol_ofChars, Source.lineCol_ofChars, takeBytes_takeBytes]
  have hquoted : quotedLine (.ofChars text) (byteSize (takeBytes span.start text)) =
      quotedLine (.ofChars text) span.start := by
    rw [quotedLine_ofChars, quotedLine_ofChars, takeBytes_takeBytes, dropBytes_takeBytes]
  obtain ⟨severity, message, code, suggestion, span?⟩ := d
  obtain rfl : span? = some span := hspan
  unfold render? heading closing
  dsimp only
  rw [Source.text_ofChars, hrounded, hquoted]
  cases (Source.ofChars text).slice? span <;> cases code <;> cases suggestion <;> rfl

end Diagnostic

/-- An offset of a text, which may be past the end or inside a character, is on the line with as
many newlines above, in the column with as many characters before it on that line; two boundaries
have their places in their order. A report about a range says its place, counted from one, quotes
that line of the text, and has as many carets as the range has characters, but at least one; as many
spaces are before the first caret as there are characters before the range on the line. -/
theorem lineCol_render (text : List Char) :
    (∀ offset, ∃ above before rest, CutAt text offset above before rest) ∧
    (∀ offset above before rest, CutAt text offset above before rest →
      (Source.ofChars text).lineCol offset = (above.count '\n', before.length)) ∧
    StrictMonoOn (fun n => toLex ((Source.ofChars text).lineCol n)) {n | IsBoundary text n} ∧
    Set.InjOn (Source.ofChars text).lineCol {n | IsBoundary text n} ∧
    ∀ (d : Diagnostic) (name : String) (span : Span) (above before rest : List Char),
      d.span = some span → IsBoundary text span.start → IsBoundary text span.stop →
      CutAt text span.start above before rest →
      let line := above.count '\n'
      let column := before.length
      ∃ quoted, (text.splitOn '\n')[line]? = some quoted ∧
        quoted = before ++ rest.takeWhile (· != '\n') ∧
        d.render? name (.ofChars text) = some (d.heading name ++
          s!"{line + 1}:{column + 1}: {d.message}" ++ "\n  | " ++ String.ofList quoted ++
          "\n  | " ++ String.ofList (List.replicate column ' ' ++ List.replicate
            (max 1 ((takeBytes span.stop text).length - (takeBytes span.start text).length)) '^') ++
          d.closing) := by
  have hmono := strictMonoOn_lineCol text
  refine ⟨fun offset => ⟨_, _, _, cutAt text offset⟩, fun _ _ _ _ hcut => hcut.lineCol_eq, hmono,
    fun m hm n hn h => hmono.injOn hm hn (congrArg toLex h), ?_⟩
  intro d name span above before rest hspan hstart hstop hcut line column
  refine ⟨_, hcut.getElem?_splitOn, rfl, ?_⟩
  have hrender := Diagnostic.render?_eq hspan hcut.lineCol_eq name
  rw [Source.slice?_ofChars hstart hstop, Option.map_some, hcut.quotedLine_eq,
    hstart.length_between hstop, Diagnostic.ofList_caretLines] at hrender
  simpa only [String.append_assoc] using hrender

/-- A range of two characters, the first of them of two bytes, on the second line. -/
theorem lineCol_render_two_lines :
    CutAt ['a', '\n', 'x', 'é', 'z'] 3 ['a', '\n'] ['x'] ['é', 'z'] ∧
    IsBoundary ['a', '\n', 'x', 'é', 'z'] 3 ∧ IsBoundary ['a', '\n', 'x', 'é', 'z'] 6 ∧
    (Source.ofChars ['a', '\n', 'x', 'é', 'z']).lineCol 4 = (1, 1) ∧
    (Diagnostic.error "bad" (some ⟨3, 6⟩)).render? "f" (.ofChars ['a', '\n', 'x', 'é', 'z']) =
      some "Error: f:2:2: bad\n  | xéz\n  |  ^^" := by
  obtain ⟨-, hplace, -, -, hrender⟩ := lineCol_render ['a', '\n', 'x', 'é', 'z']
  have hcut {offset : Nat} (hfrom : 3 ≤ offset) (hto : offset < 5) :
      CutAt ['a', '\n', 'x', 'é', 'z'] offset ['a', '\n'] ['x'] ['é', 'z'] := by
    refine ⟨rfl, .inr rfl, by decide, hfrom, fun c hc => ?_⟩
    obtain rfl : 'é' = c := Option.some.inj hc
    exact hto
  obtain ⟨quoted, -, rfl, hreport⟩ := hrender (.error "bad" (some ⟨3, 6⟩)) "f" ⟨3, 6⟩ _ _ _
    rfl rfl rfl (hcut (by decide) (by decide))
  exact ⟨hcut (by decide) (by decide), rfl, rfl, hplace 4 _ _ _ (hcut (by decide) (by decide)),
    hreport.trans (by decide)⟩

end ShadingMachine.Text
