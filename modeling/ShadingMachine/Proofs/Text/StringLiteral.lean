import ShadingMachine.Proofs.Text.Offsets
import ShadingMachine.Proofs.Text.Tiling
import ShadingMachine.Proofs.Text.UnifiedLayout

/-! A string as it is written in a text. It is scanned to one token whatever follows, this token is
read back to the string, and making line endings alike goes around it. -/
namespace ShadingMachine.Text

/-- The faults of a text stand in it. -/
theorem le_start_fault (before cs : List Char) :
    ∀ d ∈ (scanFrom (byteSize before) cs).2,
      ∃ s, d.span = some s ∧ byteSize before ≤ s.start := by
  obtain ⟨spans, h⟩ := tiling_scanFrom before cs
  intro d hd
  obtain ⟨-, s, hs, -⟩ := h.faulty d hd
  have hmem : s ∈ spans := h.faultsInOrder.subset (List.mem_filterMap.mpr ⟨d, hd, hs⟩)
  exact ⟨s, hs, h.le_start s hmem⟩

theorem head?_quote_append (cs rest : List Char) :
    (Quoted.quote cs ++ rest).head? = some '"' := rfl

section
variable {cs : List Char} (h : '\x00' ∉ cs) (rest : List Char)
include h

theorem unifyFrom_append_quote (pos : Nat) (before : List Char) :
    unifyFrom pos (before ++ (Quoted.quote cs ++ rest)) =
      ((unifyFrom pos before).1 ++ (Quoted.quote cs ++
        (unifyFrom (pos + byteSize ((unifyFrom pos before).1 ++ Quoted.quote cs)) rest).1),
      (unifyFrom pos before).2 ++
        (unifyFrom (pos + byteSize ((unifyFrom pos before).1 ++ Quoted.quote cs)) rest).2) := by
  -- No line ending is cut in two at either of the quotes.
  have hfirst : (Quoted.quote cs ++ rest).head? ≠ some '\n' := by
    rw [head?_quote_append]
    decide
  have hlast : (Quoted.quote cs).getLast? ≠ some '\r' := by
    rw [Quoted.quote, List.getLast?_concat]
    decide
  rw [unifyFrom_append_of (.inl hfirst), unifyFrom_append_of (.inr hlast),
    unifyFrom_eq_self (isPlain_quote h), byteSize_append, Nat.add_assoc]
  rfl

/-- A byte-order mark stands before the string or is none. -/
theorem unifyLineEndings_append_quote (before : List Char) :
    unifyLineEndings (before ++ (Quoted.quote cs ++ rest)) =
      ((unifyLineEndings before).1 ++ (Quoted.quote cs ++
        (unifyFrom (byteSize ((unifyLineEndings before).1 ++ Quoted.quote cs)) rest).1),
      (unifyLineEndings before).2 ++
        (unifyFrom (byteSize ((unifyLineEndings before).1 ++ Quoted.quote cs)) rest).2) := by
  have hquote := unifyFrom_append_quote h rest 0
  simp only [Nat.zero_add] at hquote
  by_cases hmark : HasMark before
  · obtain ⟨before, rfl⟩ := List.head?_eq_some_iff.mp hmark
    exact hquote before
  · have hwhole : ¬HasMark (before ++ (Quoted.quote cs ++ rest)) := by
      cases before with
      | nil =>
        rw [List.nil_append, HasMark, head?_quote_append]
        decide
      | cons c before => exact hmark
    rw [unifyLineEndings_eq_unifyFrom hwhole, unifyLineEndings_eq_unifyFrom hmark]
    exact hquote before

end

/-- A string that is written in quotes is the first token of the text, with all its characters, and no
fault begins before its end. It is read back to the string. If there is no NUL character in it, making
line endings alike leaves it as it is in any text, and warns about nothing in it. -/
theorem scan_quote (cs rest : List Char) :
    scan (Quoted.quote cs ++ rest) =
      (⟨.string, String.ofList (Quoted.quote cs), .after [] (Quoted.quote cs)⟩ ::
        (scanFrom (byteSize (Quoted.quote cs)) rest).1,
      (scanFrom (byteSize (Quoted.quote cs)) rest).2) ∧
    (Source.ofChars (Quoted.quote cs ++ rest)).slice (.after [] (Quoted.quote cs)) =
      Quoted.quote cs ∧
    (∀ d ∈ (scan (Quoted.quote cs ++ rest)).2, ∃ s, d.span = some s ∧
      (Span.after [] (Quoted.quote cs)).Precedes s) ∧
    Quoted.unquote (Quoted.quote cs) = cs ∧
    ('\x00' ∉ cs → ∀ before, unifyLineEndings (before ++ (Quoted.quote cs ++ rest)) =
      ((unifyLineEndings before).1 ++ (Quoted.quote cs ++
        (unifyFrom (byteSize ((unifyLineEndings before).1 ++ Quoted.quote cs)) rest).1),
      (unifyLineEndings before).2 ++
        (unifyFrom (byteSize ((unifyLineEndings before).1 ++ Quoted.quote cs)) rest).2)) := by
  have hscan := (scans_quote 0 cs rest).eq
  rw [Nat.zero_add] at hscan
  refine ⟨?_, Span.slice_after [] (Quoted.quote cs) rest, fun d hd => ?_, Quoted.unquote_quote cs,
    fun h before => unifyLineEndings_append_quote h rest before⟩
  · rw [scan, hscan, Span.after, byteSize_nil, Nat.zero_add]
    rfl
  · rw [scan, hscan] at hd
    obtain ⟨s, hs, hstart⟩ := le_start_fault (Quoted.quote cs) rest d hd
    refine ⟨s, hs, ?_⟩
    rwa [Span.Precedes, Span.after, byteSize_nil, Nat.zero_add]

/-- The carriage return of the string is written with a backslash, so that only those around it
change. -/
theorem scan_quote_returns :
    '\x00' ∉ ['\\', '\r', '"'] ∧
    unifyLineEndings ("push \r".toList ++ (Quoted.quote ['\\', '\r', '"'] ++ "\r\n".toList)) =
      ("push \n".toList ++ (Quoted.quote ['\\', '\r', '"'] ++ "\n".toList), []) := by
  have hnul : '\x00' ∉ ['\\', '\r', '"'] := by decide
  refine ⟨hnul, ?_⟩
  rw [(scan_quote _ _).2.2.2.2 hnul]
  decide

end ShadingMachine.Text
