import Mathlib.Data.List.DropRight
import ShadingMachine.Text.Diagnostic

/-! Where an offset of a text is, told from the characters before it: its line is the number of
newlines among them, its column the number of characters since the last one. -/
namespace ShadingMachine.Text

/-- The characters since the last newline. -/
def lastLine (cs : List Char) : List Char := cs.rtakeWhile (· != '\n')

/-- The whole lines before the last one. -/
def wholeLines (cs : List Char) : List Char := cs.rdropWhile (· != '\n')

/-- The line and the column that come after some characters, both from zero. -/
def placeAfter (cs : List Char) : Nat × Nat := (cs.count '\n', (lastLine cs).length)

theorem wholeLines_append_lastLine (cs : List Char) : wholeLines cs ++ lastLine cs = cs := by
  simp [wholeLines, lastLine, List.rdropWhile, List.rtakeWhile, ← List.reverse_append]

section

variable {c : Char} {cs ds : List Char}

theorem newline_notMem_lastLine (cs : List Char) : '\n' ∉ lastLine cs := by
  intro h
  rw [lastLine, List.rtakeWhile, List.mem_reverse] at h
  simpa using List.mem_takeWhile_imp h

theorem lastLine_of_notMem (h : '\n' ∉ cs) : lastLine cs = cs := by
  rw [lastLine, List.rtakeWhile_eq_self_iff]
  intro c hc
  simpa using fun hnew : c = '\n' => h (hnew ▸ hc)

/-- What stands before a newline does not matter. -/
theorem lastLine_append_of_mem (cs : List Char) (h : '\n' ∈ ds) :
    lastLine (cs ++ ds) = lastLine ds := by
  rw [lastLine, lastLine, List.rtakeWhile, List.rtakeWhile, List.reverse_append,
    List.takeWhile_append, if_neg]
  intro hlength
  have hall := (List.takeWhile_sublist (· != '\n')).eq_of_length hlength
  have hmem := List.mem_reverse.mpr h
  rw [← hall] at hmem
  simpa using List.mem_takeWhile_imp hmem

theorem lastLine_append_of_notMem (cs : List Char) (h : '\n' ∉ ds) :
    lastLine (cs ++ ds) = lastLine cs ++ ds := by
  have hall : ∀ c ∈ ds.reverse, (c != '\n') = true := by
    intro c hc
    simpa using fun hnew : c = '\n' => h (hnew ▸ List.mem_reverse.mp hc)
  rw [lastLine, lastLine, List.rtakeWhile, List.rtakeWhile, List.reverse_append,
    List.takeWhile_append_of_pos hall, List.reverse_append, List.reverse_reverse]

@[simp] theorem lastLine_newline_cons (cs : List Char) : lastLine ('\n' :: cs) = lastLine cs := by
  by_cases h : '\n' ∈ cs
  · exact lastLine_append_of_mem ['\n'] h
  · have hlast := lastLine_append_of_notMem ['\n'] h
    rw [lastLine_of_notMem h]
    exact hlast

theorem lastLine_cons_of_mem (h : '\n' ∈ cs) : lastLine (c :: cs) = lastLine cs :=
  lastLine_append_of_mem [c] h

theorem wholeLines_cons_of_mem (h : '\n' ∈ cs) : wholeLines (c :: cs) = c :: wholeLines cs := by
  have hparts := wholeLines_append_lastLine (c :: cs)
  rw [lastLine_cons_of_mem h] at hparts
  refine List.append_cancel_right (hparts.trans ?_)
  rw [List.cons_append, wholeLines_append_lastLine]

theorem wholeLines_newline_cons (cs : List Char) :
    wholeLines ('\n' :: cs) = '\n' :: wholeLines cs := by
  have hparts := wholeLines_append_lastLine ('\n' :: cs)
  rw [lastLine_newline_cons] at hparts
  refine List.append_cancel_right (hparts.trans ?_)
  rw [List.cons_append, wholeLines_append_lastLine]

theorem wholeLines_of_notMem (h : '\n' ∉ cs) : wholeLines cs = [] := by
  have hparts := wholeLines_append_lastLine cs
  rw [lastLine_of_notMem h] at hparts
  exact List.append_left_eq_self.mp hparts

end

section Bytes

variable {n : Nat} {cs ds : List Char}

theorem takeBytes_append (h : byteSize cs ≤ n) (ds : List Char) :
    takeBytes n (cs ++ ds) = cs ++ takeBytes (n - byteSize cs) ds := by
  induction cs generalizing n with
  | nil => rfl
  | cons c cs ih =>
    rw [byteSize_cons] at h
    have hfits : c.utf8Size ≤ n := by omega
    rw [List.cons_append, takeBytes, if_pos hfits, ih (by omega), byteSize_cons, Nat.sub_sub,
      List.cons_append]

theorem takeBytes_of_le (h : byteSize cs ≤ n) : takeBytes n cs = cs := by
  have hall := takeBytes_append h []
  simpa [takeBytes] using hall

theorem takeBytes_min (n : Nat) (cs : List Char) :
    takeBytes (min n (byteSize cs)) cs = takeBytes n cs := by
  by_cases h : n ≤ byteSize cs
  · rw [Nat.min_eq_left h]
  · rw [Nat.min_eq_right (by omega), takeBytes_of_le (by omega), takeBytes_of_le (by omega)]

/-- Rounding an offset down does not change what is before it. -/
theorem takeBytes_takeBytes (n : Nat) (cs : List Char) :
    takeBytes (byteSize (takeBytes n cs)) cs = takeBytes n cs := by
  have hparts := takeBytes_byteSize_append (takeBytes n cs) (dropBytes n cs)
  rwa [takeBytes_append_dropBytes] at hparts

theorem dropBytes_takeBytes (n : Nat) (cs : List Char) :
    dropBytes (byteSize (takeBytes n cs)) cs = dropBytes n cs := by
  have hparts := dropBytes_byteSize_append (takeBytes n cs) (dropBytes n cs)
  rwa [takeBytes_append_dropBytes] at hparts

theorem prefix_takeBytes (hfront : ds <+: cs) (h : byteSize ds ≤ n) : ds <+: takeBytes n cs := by
  obtain ⟨rest, rfl⟩ := hfront
  rw [takeBytes_append h]
  exact List.prefix_append ..

theorem isBoundary_byteSize (h : ds <+: cs) : IsBoundary cs (byteSize ds) := by
  obtain ⟨rest, rfl⟩ := h
  rw [IsBoundary, takeBytes_byteSize_append]

theorem IsBoundary.le (h : IsBoundary cs n) : n ≤ byteSize cs := by
  have hparts := congrArg byteSize (takeBytes_append_dropBytes n cs)
  rw [byteSize_append, h] at hparts
  omega

end Bytes

namespace Source

variable {text : List Char} {span : Span}

/-- A range between characters can be cut out; one that ends before it starts is empty. -/
theorem slice?_ofChars (hstart : IsBoundary text span.start) (hstop : IsBoundary text span.stop) :
    (ofChars text).slice? span =
      some (takeBytes (span.stop - span.start) (dropBytes span.start text)) := by
  have hend : IsBoundary text (max span.start span.stop) := by
    rcases Nat.le_total span.start span.stop with h | h
    · rwa [Nat.max_eq_right h]
    · rwa [Nat.max_eq_left h]
  show cut? text ⟨min span.start (byteSize text), max (min span.start (byteSize text))
    (min span.stop (byteSize text))⟩ = _
  rw [Nat.min_eq_left hstart.le, Nat.min_eq_left hstop.le, cut?,
    if_pos ⟨Nat.le_max_left .., hstart, hend⟩]
  congr 2
  dsimp only
  omega

theorem slice_ofChars (hstart : IsBoundary text span.start) (hstop : IsBoundary text span.stop) :
    (ofChars text).slice span = takeBytes (span.stop - span.start) (dropBytes span.start text) := by
  rw [slice, slice?_ofChars hstart hstop, Option.getD_some]

/-- A range from a place of the text on can be cut out just if it ends between characters. -/
theorem isSome_slice?_iff (hstart : IsBoundary text span.start) (h : span.start ≤ span.stop) :
    ((ofChars text).slice? span).isSome = true ↔ IsBoundary text (min span.stop (byteSize text)) := by
  have hle : span.start ≤ min span.stop (byteSize text) := Nat.le_min.mpr ⟨h, hstart.le⟩
  show (cut? text ⟨min span.start (byteSize text), max (min span.start (byteSize text))
    (min span.stop (byteSize text))⟩).isSome = true ↔ _
  rw [Nat.min_eq_left hstart.le, Nat.max_eq_right hle, cut?]
  split
  · rename_i hends
    exact iff_of_true rfl hends.2.2
  · rename_i hends
    exact iff_of_false Bool.false_ne_true fun hstop => hends ⟨hle, hstart, hstop⟩

end Source

section Places

variable {pos : Nat} {cs : List Char}

theorem le_of_mem_lineStartsFrom {k : Nat} (h : k ∈ lineStartsFrom pos cs) : pos ≤ k := by
  induction cs generalizing pos with
  | nil => cases h
  | cons c cs ih =>
    unfold lineStartsFrom at h
    dsimp only at h
    split at h
    · rcases List.mem_cons.mp h with rfl | h
      · omega
      · have := ih h
        omega
    · have := ih h
      omega

theorem lt_of_mem_lineStartsFrom_cons {c : Char} {k : Nat}
    (h : k ∈ lineStartsFrom pos (c :: cs)) : pos + c.utf8Size ≤ k := by
  unfold lineStartsFrom at h
  dsimp only at h
  split at h
  · rcases List.mem_cons.mp h with rfl | h
    · exact Nat.le_refl _
    · exact le_of_mem_lineStartsFrom h
  · exact le_of_mem_lineStartsFrom h

/-- As many lines start up to an offset as there are newlines before it. -/
theorem length_takeWhile_lineStartsFrom (pos n : Nat) (cs : List Char) :
    ((lineStartsFrom pos cs).takeWhile (· ≤ pos + n)).length = (takeBytes n cs).count '\n' := by
  induction cs generalizing pos n with
  | nil => rfl
  | cons c cs ih =>
    by_cases hn : c.utf8Size ≤ n
    · have hrest := ih (pos + c.utf8Size) (n - c.utf8Size)
      have hplace : pos + c.utf8Size + (n - c.utf8Size) = pos + n := by omega
      rw [hplace] at hrest
      rw [takeBytes, if_pos hn, lineStartsFrom]
      by_cases hc : c = '\n'
      · rw [if_pos hc, List.takeWhile_cons_of_pos (by simpa using hn), List.length_cons, hrest, hc,
          List.count_cons_self]
      · rw [if_neg hc, hrest, List.count_cons_of_ne hc]
    · rw [takeBytes, if_neg hn, List.count_nil, List.length_eq_zero_iff]
      refine List.takeWhile_eq_nil_iff.mpr fun hpos hle => ?_
      have hmem := lt_of_mem_lineStartsFrom_cons (List.getElem_mem hpos)
      have hle : (lineStartsFrom pos (c :: cs))[0] ≤ pos + n := by simpa using hle
      omega

/-- The last of these lines starts after the whole lines before the offset. -/
theorem getD_lineStartsFrom (pos n : Nat) (cs : List Char) :
    (pos :: lineStartsFrom pos cs).getD ((takeBytes n cs).count '\n') 0 =
      pos + byteSize (wholeLines (takeBytes n cs)) := by
  induction cs generalizing pos n with
  | nil => rfl
  | cons c cs ih =>
    by_cases hn : c.utf8Size ≤ n
    · have hrest := ih (pos + c.utf8Size) (n - c.utf8Size)
      rw [takeBytes, if_pos hn, lineStartsFrom]
      generalize takeBytes (n - c.utf8Size) cs = before at hrest ⊢
      by_cases hc : c = '\n'
      · subst hc
        rw [if_pos rfl, List.count_cons_self, List.getD_cons_succ, wholeLines_newline_cons,
          byteSize_cons, ← Nat.add_assoc]
        exact hrest
      · rw [if_neg hc, List.count_cons_of_ne hc]
        by_cases hbefore : '\n' ∈ before
        · obtain ⟨k, hk⟩ := Nat.exists_eq_succ_of_ne_zero (List.count_pos_iff.mpr hbefore).ne'
          rw [hk, List.getD_cons_succ] at hrest ⊢
          rw [hrest, wholeLines_cons_of_mem hbefore, byteSize_cons, Nat.add_assoc]
        · have hnone : '\n' ∉ c :: before := by
            simp only [List.mem_cons, not_or]
            exact ⟨fun h => hc h.symm, hbefore⟩
          rw [List.count_eq_zero.mpr hbefore, wholeLines_of_notMem hnone]
          rfl
    · rw [takeBytes, if_neg hn]
      rfl

/-- A place is told from the characters before it. -/
theorem Source.lineCol_ofChars (cs : List Char) (offset : Nat) :
    (Source.ofChars cs).lineCol offset = placeAfter (takeBytes offset cs) := by
  have hbefore := takeBytes_min offset cs
  have hlines := length_takeWhile_lineStartsFrom 0 (min offset (byteSize cs)) cs
  have hstart := getD_lineStartsFrom 0 (min offset (byteSize cs)) cs
  rw [Nat.zero_add, hbefore] at hlines hstart
  have hsize := byteSize_takeBytes_le (min offset (byteSize cs)) cs
  rw [hbefore] at hsize
  have hparts := wholeLines_append_lastLine (takeBytes offset cs)
  have hwhole : byteSize (wholeLines (takeBytes offset cs)) ≤ min offset (byteSize cs) := by
    rw [← hparts, byteSize_append] at hsize
    omega
  have hcolumn : takeBytes
      (min offset (byteSize cs) - byteSize (wholeLines (takeBytes offset cs)))
      (dropBytes (byteSize (wholeLines (takeBytes offset cs))) cs) =
        lastLine (takeBytes offset cs) := by
    have hsplit : cs = wholeLines (takeBytes offset cs) ++
        dropBytes (byteSize (wholeLines (takeBytes offset cs))) cs := by
      conv_rhs => arg 2; arg 2; rw [← takeBytes_append_dropBytes offset cs, ← hparts]
      rw [List.append_assoc, dropBytes_byteSize_append, ← List.append_assoc, hparts,
        takeBytes_append_dropBytes]
    have htaken := takeBytes_append hwhole
      (dropBytes (byteSize (wholeLines (takeBytes offset cs))) cs)
    rw [← hsplit, hbefore] at htaken
    exact List.append_cancel_left (htaken.symm.trans hparts.symm)
  unfold lineCol ofChars
  dsimp only
  rw [List.takeWhile_cons_of_pos (by simp), List.length_cons, hlines, Nat.add_sub_cancel, hstart,
    hcolumn]
  rfl

end Places

namespace Diagnostic

theorem quotedLine_ofChars (cs : List Char) (offset : Nat) :
    quotedLine (.ofChars cs) offset =
      lastLine (takeBytes offset cs) ++ (dropBytes offset cs).takeWhile (· != '\n') := rfl

theorem newline_notMem_quotedLine (cs : List Char) (offset : Nat) :
    '\n' ∉ quotedLine (.ofChars cs) offset := by
  rw [quotedLine_ofChars, List.mem_append, not_or]
  refine ⟨newline_notMem_lastLine _, fun h => ?_⟩
  simpa using List.mem_takeWhile_imp h

/-- The first line is quoted from its beginning. -/
theorem quotedLine_of_notMem {cs : List Char} {offset : Nat} (h : '\n' ∉ takeBytes offset cs) :
    quotedLine (.ofChars cs) offset = cs.takeWhile (· != '\n') := by
  have hbefore : ∀ c ∈ takeBytes offset cs, (c != '\n') = true := by
    intro c hc
    simpa using fun hnew : c = '\n' => h (hnew ▸ hc)
  conv_rhs => rw [← takeBytes_append_dropBytes offset cs]
  rw [quotedLine_ofChars, lastLine_of_notMem h, List.takeWhile_append_of_pos hbefore]

end Diagnostic

end ShadingMachine.Text
