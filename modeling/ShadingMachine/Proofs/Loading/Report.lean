import ShadingMachine.Proofs.Loading.Places
import ShadingMachine.Proofs.Number.Decimal
import ShadingMachine.Proofs.Text.Offsets
import ShadingMachine.Proofs.Text.Rendering

/-! Reports of what keeps a text from loading. The error is about the text with its line endings
made alike, and the report is made from the text itself. -/
namespace ShadingMachine

open Text

namespace LoadError

/-- What a report about a file of that name begins with, before the place. -/
def heading (e : LoadError) (name : String) : String :=
  let code := match e.cause.code with
    | some c => s!" [{c}]"
    | none => ""
  "Error" ++ code ++ ": " ++ name ++ ":"

/-- The report says this place in its header and quotes this line below it. -/
structure ReportedAt (e : LoadError) (name report : String) (line column : Nat)
    (quoted : List Char) : Prop where
  one_line : '\n' ∉ quoted
  text : ∃ carets, report.toList = (e.heading name).toList ++
    (s!"{line}:{column}: {e.cause.message}".toList ++ ("\n  | ".toList ++ quoted ++ '\n' :: carets))

variable {e : LoadError} {name report : String} {text : List Char}

/-- A report is its heading, the place and the message, the line with carets, and the suggestion. It
is made if the range of the error can be cut out of the text. -/
theorem exists_render?_eq (e : LoadError) (name : String) (text : List Char) {line column : Nat}
    (hplace : placeAfter (takeBytes e.span.start text) = (line, column)) : ∃ tail,
    e.toDiagnostic.render? name (.ofChars text) =
      ((Source.ofChars text).slice? e.span).map fun range => e.heading name ++
        (s!"{line + 1}:{column + 1}: {e.cause.message}" ++ String.ofList (Diagnostic.caretLines
          (Diagnostic.quotedLine (.ofChars text) e.span.start) column range.length)) ++ tail := by
  have hheading : e.toDiagnostic.heading name = e.heading name := by
    have hcode : e.toDiagnostic.code = e.cause.code := rfl
    unfold Diagnostic.heading heading
    rw [hcode]
    cases e.cause.code <;> rfl
  have hspan : e.toDiagnostic.span = some e.span := rfl
  have hrender := Diagnostic.render?_eq hspan
    ((Source.lineCol_ofChars text e.span.start).trans hplace) name
  rw [hheading] at hrender
  exact ⟨_, hrender⟩

theorem isSome_render?_iff (e : LoadError) (name : String) (text : List Char) :
    (e.toDiagnostic.render? name (.ofChars text)).isSome =
      ((Source.ofChars text).slice? e.span).isSome := by
  obtain ⟨tail, hrender⟩ := exists_render?_eq e name text
    (Prod.eta (placeAfter (takeBytes e.span.start text))).symm
  rw [hrender, Option.isSome_map]

theorem exists_caretLines_eq (line : List Char) (column width : Nat) : ∃ carets,
    Diagnostic.caretLines line column width = "\n  | ".toList ++ line ++ '\n' :: carets := by
  refine ⟨"  | ".toList ++ List.replicate column ' ' ++ List.replicate (max width 1) '^', ?_⟩
  have hgutter : "\n  | ".toList = '\n' :: "  | ".toList := by decide
  unfold Diagnostic.caretLines
  simp only [hgutter, List.cons_append, List.append_assoc]

/-- The place that a report says is that of the error's offset in the text it is made from. -/
theorem reportedAt_of_render? (h : e.toDiagnostic.render? name (.ofChars text) = some report) :
    e.ReportedAt name report ((placeAfter (takeBytes e.span.start text)).1 + 1)
      ((placeAfter (takeBytes e.span.start text)).2 + 1)
      (Diagnostic.quotedLine (.ofChars text) e.span.start) := by
  obtain ⟨tail, hrender⟩ := exists_render?_eq e name text
    (Prod.eta (placeAfter (takeBytes e.span.start text))).symm
  rw [h] at hrender
  obtain ⟨range, -, hreport⟩ := Option.map_eq_some_iff.mp hrender.symm
  obtain ⟨carets, hcarets⟩ := exists_caretLines_eq
    (Diagnostic.quotedLine (.ofChars text) e.span.start)
    (placeAfter (takeBytes e.span.start text)).2 range.length
  refine ⟨Diagnostic.newline_notMem_quotedLine text _, carets ++ tail.toList, ?_⟩
  rw [← hreport, hcarets, String.toList_append, String.toList_append, String.toList_append,
    String.toList_ofList, List.append_assoc, List.append_assoc, List.append_assoc,
    List.cons_append]

theorem append_cons_inj {c : Char} {as bs as' bs' : List Char} (has : c ∉ as) (hbs : c ∉ bs)
    (h : as ++ c :: as' = bs ++ c :: bs') : as = bs ∧ as' = bs' := by
  induction as generalizing bs with
  | nil =>
    cases bs with
    | nil => exact ⟨rfl, (List.cons.inj h).2⟩
    | cons b bs =>
      obtain ⟨hb, -⟩ := List.cons.inj h
      exact (hbs (hb ▸ List.mem_cons_self)).elim
  | cons a as ih =>
    cases bs with
    | nil =>
      obtain ⟨ha, -⟩ := List.cons.inj h
      exact (has (ha ▸ List.mem_cons_self)).elim
    | cons b bs =>
      rw [List.mem_cons, not_or] at has hbs
      obtain ⟨hab, hrest⟩ := List.cons.inj h
      obtain ⟨rfl, rfl⟩ := ih has.2 hbs.2 hrest
      exact ⟨by rw [hab], rfl⟩

theorem colon_notMem (n : Nat) : ':' ∉ (toString n).toList := by
  intro h
  rw [Nat.toString_eq_repr, Nat.toList_repr] at h
  have hdigit := Number.isDigit_of_mem h
  cases hdigit

theorem eq_of_toList_toString_eq {m n : Nat} (h : (toString m).toList = (toString n).toList) :
    m = n := by
  rw [Nat.toString_eq_repr, Nat.toString_eq_repr, Nat.toList_repr, Nat.toList_repr] at h
  rw [← Number.naturalOf_toDigits m, h, Number.naturalOf_toDigits]

/-- A report says one place and quotes one line. -/
theorem ReportedAt.unique {line column line' column' : Nat} {quoted quoted' : List Char}
    (h : e.ReportedAt name report line column quoted)
    (h' : e.ReportedAt name report line' column' quoted') :
    line = line' ∧ column = column' ∧ quoted = quoted' := by
  obtain ⟨hline, carets, hreport⟩ := h
  obtain ⟨hline', carets', hreport'⟩ := h'
  have hbody := List.append_cancel_left (hreport.symm.trans hreport')
  simp only [String.toList_append, List.append_assoc] at hbody
  obtain ⟨hlines, hbody⟩ := append_cons_inj (colon_notMem line) (colon_notMem line') hbody
  obtain ⟨hcolumns, hbody⟩ := append_cons_inj (colon_notMem column) (colon_notMem column') hbody
  have hbody := List.append_cancel_left (List.append_cancel_left (List.cons.inj hbody).2)
  obtain ⟨hquoted, -⟩ := append_cons_inj hline hline' (List.append_cancel_left hbody)
  exact ⟨eq_of_toList_toString_eq hlines, eq_of_toList_toString_eq hcolumns, hquoted⟩

/-- There is a report made from the text; it says the line and the column of the error, and quotes
the line with the error of the text with its line endings made alike. -/
def RightlyReported (e : LoadError) (name : String) (text : List Char) : Prop :=
  ∃ report quoted, e.toDiagnostic.render? name (.ofChars text) = some report ∧
    e.ReportedAt name report e.line e.column quoted ∧
      bareLine quoted = Diagnostic.quotedLine (.ofChars (unifyLineEndings text).1) e.span.start

theorem LocatedIn.rightlyReported_iff_agree (h : e.LocatedIn (unifyLineEndings text).1)
    (name : String) : e.RightlyReported name text ↔
      Agree text e.span.start ∧ ((Source.ofChars text).slice? e.span).isSome = true := by
  rw [← isSome_render?_iff e name text]
  constructor
  · rintro ⟨report, quoted, hrender, hreport, hquoted⟩
    obtain ⟨hline, hcolumn, rfl⟩ := hreport.unique (reportedAt_of_render? hrender)
    refine ⟨⟨Prod.ext ?_ ?_, hquoted⟩, by rw [hrender, Option.isSome_some]⟩
    · have := h.line
      omega
    · have := h.column
      omega
  · rintro ⟨⟨hplace, hline⟩, hsome⟩
    obtain ⟨report, hrender⟩ := Option.isSome_iff_exists.mp hsome
    have hreport := reportedAt_of_render? hrender
    rw [hplace, ← h.line, ← h.column] at hreport
    exact ⟨report, _, hrender, hreport, hline⟩

end LoadError

namespace Program

/-- What keeps a text from loading, if anything does. -/
def refusal? (text : List Char) : Option LoadError :=
  match (load text).1 with
  | .ok _ => none
  | .error e => some e

theorem load_of_refusal? {text : List Char} {e : LoadError} (h : refusal? text = some e) :
    (load text).1 = .error e := by
  unfold refusal? at h
  split at h
  · cases h
  · rename_i e' hload
    cases h
    exact hload

/-- The report of what keeps a text from loading is right exactly if nothing before the place of
the error and on its line is changed when the line endings are made alike, and the error's range
ends between two characters of the text. -/
theorem rightlyReported_iff {text : List Char} {e : LoadError} (h : (load text).1 = .error e)
    (name : String) : e.RightlyReported name text ↔
      Undisturbed text e.span.start ∧ IsBoundary text (min e.span.stop (byteSize text)) := by
  have hlocated := locatedIn_of_load h
  rw [hlocated.rightlyReported_iff_agree, agree_iff hlocated.boundary]
  exact and_congr_right fun hundisturbed =>
    Source.isSome_slice?_iff (hundisturbed.isBoundary hlocated.boundary) hlocated.ordered

/-- A line that ends in a carriage return and a newline is quoted without them. -/
theorem rightlyReported_line_ending :
    let text := "surface\nbogus\r\nUSES 0".toList
    ∃ e, (load text).1 = .error e ∧ e.RightlyReported "input.slx" text := by
  intro text
  have hload : (load text).1 = .error ⟨.expectedToken "'AQSIS_V'", "bogus", ⟨8, 13⟩, 2, 1, none⟩ :=
    load_of_refusal? (by decide +kernel)
  have hquoted : bareLine (Diagnostic.quotedLine (.ofChars text) 8) = ['b', 'o', 'g', 'u', 's'] := by
    decide +kernel
  have hundisturbed : Undisturbed text 8 := by
    refine ⟨by decide, by decide +kernel, ?_⟩
    rw [hquoted]
    simp
  have hstop : IsBoundary text (min 13 (byteSize text)) := by decide +kernel
  exact ⟨_, hload, (rightlyReported_iff hload "input.slx").mpr ⟨hundisturbed, hstop⟩⟩

/-- A string that goes on behind an escaped line ending: the range of the error ends inside the last
character of the text, and no report can be made. -/
example : let text := ['"', '\\', '\r', '\n', 'é']
    (refusal? text).map (fun e => (e.span, e.toDiagnostic.render? "input.slx" (.ofChars text))) =
      some (⟨0, 5⟩, none) := by decide +kernel

/-- After a carriage return the report is about another place. -/
theorem not_rightlyReported_after_return :
    let text := "surface\r\nbogus".toList
    ∃ e, (load text).1 = .error e ∧ e.line = 2 ∧ e.column = 1 ∧
      e.toDiagnostic.render? "input.slx" (.ofChars text) = some
        "Error [L0002]: input.slx:1:9: Expected 'AQSIS_V'\n  | surface\r\n  |         ^^^^^" ∧
      ¬e.RightlyReported "input.slx" text := by
  intro text
  have hload : (load text).1 = .error ⟨.expectedToken "'AQSIS_V'", "bogus", ⟨8, 13⟩, 2, 1, none⟩ :=
    load_of_refusal? (by decide +kernel)
  have hplace : placeAfter (takeBytes 8 text) ≠
      placeAfter (takeBytes 8 (unifyLineEndings text).1) := by decide +kernel
  refine ⟨_, hload, rfl, rfl, by decide +kernel, fun h => ?_⟩
  exact hplace (((locatedIn_of_load hload).rightlyReported_iff_agree "input.slx").mp h).1.place

end Program

end ShadingMachine
