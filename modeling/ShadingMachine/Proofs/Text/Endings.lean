import ShadingMachine.Proofs.Text.Lines
import ShadingMachine.Text.LineEnding

/-! What making line endings alike does to the lines of a text. It makes none longer in bytes and
takes no newline away; where a carriage return goes, there is a newline more or a byte less. -/
namespace ShadingMachine.Text

/-- NUL characters become spaces. -/
def plainChar (c : Char) : Char := if c = '\x00' then ' ' else c

/-- The text whose line endings are made alike, without the warnings about it. -/
def unified : List Char → List Char
  | [] => []
  | '\r' :: '\n' :: cs => '\n' :: unified cs
  | '\r' :: cs => '\n' :: unified cs
  | c :: cs => plainChar c :: unified cs

theorem unifyFrom_fst (pos : Nat) (cs : List Char) : (unifyFrom pos cs).1 = unified cs := by
  fun_induction unifyFrom pos cs with
  | case1 => rfl
  | case2 pos cs text warnings h ih =>
    rw [unified, ← ih, h]
  | case3 pos cs hlf text warnings h ih =>
    rw [unified.eq_3 cs hlf, ← ih, h]
  | case4 pos cs text warnings h ih =>
    rw [unified, ← ih, h]
    · rfl
    · simp
    · simp
  | case5 pos c cs hcrlf hcr hnul text warnings h ih =>
    rw [unified.eq_4 c cs hcrlf hcr, ← ih, h, plainChar, if_neg hnul]

theorem utf8Size_plainChar (c : Char) : (plainChar c).utf8Size = c.utf8Size := by
  unfold plainChar
  split
  · rename_i h
    rw [h]
    rfl
  · rfl

theorem byteSize_unified_le (cs : List Char) : byteSize (unified cs) ≤ byteSize cs := by
  fun_induction unified cs with
  | case1 => exact Nat.le_refl _
  | case2 cs ih =>
    simp only [byteSize_cons]
    omega
  | case3 cs hlf ih =>
    have hsize : '\r'.utf8Size = '\n'.utf8Size := rfl
    simp only [byteSize_cons]
    omega
  | case4 c cs hcrlf hcr ih =>
    simp only [byteSize_cons, utf8Size_plainChar]
    omega

theorem plainChar_ne_nul (c : Char) : plainChar c ≠ '\x00' := by
  unfold plainChar
  split
  · decide
  · assumption

theorem plainChar_eq_iff {c d : Char} (hnul : d ≠ '\x00') (hspace : d ≠ ' ') :
    plainChar c = d ↔ c = d := by
  unfold plainChar
  split
  · rename_i h
    subst h
    exact ⟨fun h => absurd h.symm hspace, fun h => absurd h.symm hnul⟩
  · rfl

section Plain

variable {cs : List Char}

theorem byteSize_map_plainChar (cs : List Char) : byteSize (cs.map plainChar) = byteSize cs := by
  induction cs with
  | nil => rfl
  | cons c cs ih => rw [List.map_cons, byteSize_cons, byteSize_cons, utf8Size_plainChar, ih]

theorem map_plainChar_eq_self (h : '\x00' ∉ cs) : cs.map plainChar = cs := by
  refine (List.map_congr_left fun c hc => if_neg ?_).trans (List.map_id cs)
  rintro rfl
  exact h hc

theorem lastLine_map_plainChar (cs : List Char) :
    lastLine (cs.map plainChar) = (lastLine cs).map plainChar := by
  have hsame : (fun c : Char => c != '\n') ∘ plainChar = fun c : Char => c != '\n' := by
    funext c
    have hiff := plainChar_eq_iff (c := c) (d := '\n') (by decide) (by decide)
    simp only [Function.comp, bne, beq_eq_decide, hiff]
  rw [lastLine, lastLine, List.rtakeWhile, List.rtakeWhile, ← List.map_reverse,
    List.takeWhile_map, hsame, List.map_reverse]

theorem placeAfter_map_plainChar (cs : List Char) :
    placeAfter (cs.map plainChar) = placeAfter cs := by
  have hcount : (cs.map plainChar).count '\n' = cs.count '\n' := by
    induction cs with
    | nil => rfl
    | cons c cs ih =>
      have hiff := plainChar_eq_iff (c := c) (d := '\n') (by decide) (by decide)
      simp only [List.map_cons, List.count_cons, ih, beq_eq_decide, hiff]
  rw [placeAfter, placeAfter, hcount, lastLine_map_plainChar, List.length_map]

end Plain

section Unified

variable {c : Char} {cs ds : List Char}

theorem unified_cons (h : c ≠ '\r') (cs : List Char) :
    unified (c :: cs) = plainChar c :: unified cs :=
  unified.eq_4 c cs (fun _ hc _ => h hc) h

/-- Before the first carriage return only NUL characters change. -/
theorem unified_append (h : '\r' ∉ cs) (ds : List Char) :
    unified (cs ++ ds) = cs.map plainChar ++ unified ds := by
  induction cs with
  | nil => rfl
  | cons c cs ih =>
    rw [List.mem_cons, not_or] at h
    rw [List.cons_append, unified_cons (Ne.symm h.1), ih h.2, List.map_cons, List.cons_append]

/-- A line ends at the first newline or carriage return. -/
theorem takeWhile_unified (cs : List Char) : (unified cs).takeWhile (· != '\n') =
    ((cs.takeWhile (· != '\n')).takeWhile (· != '\r')).map plainChar := by
  fun_induction unified cs with
  | case1 => rfl
  | case2 => rfl
  | case3 => rfl
  | case4 c cs hcrlf hcr ih =>
    by_cases hc : c = '\n'
    · subst hc
      rfl
    · have hplain : plainChar c ≠ '\n' := by
        rwa [Ne, plainChar_eq_iff (by decide) (by decide)]
      rw [List.takeWhile_cons_of_pos (by simpa using hplain), ih,
        List.takeWhile_cons_of_pos (by simpa using hc),
        List.takeWhile_cons_of_pos (by simpa using hcr), List.map_cons]

/-- A line ending that is cut in two is one all the same. -/
theorem unified_prefix (cs ds : List Char) : unified cs <+: unified (cs ++ ds) := by
  fun_induction unified cs with
  | case1 => exact List.nil_prefix
  | case2 cs ih =>
    rw [List.cons_append, List.cons_append, unified]
    exact (List.prefix_cons_inj _).mpr ih
  | case3 cs hlf ih =>
    by_cases hcut : ∃ rest, cs ++ ds = '\n' :: rest
    · obtain ⟨rest, hrest⟩ := hcut
      have hnil : cs = [] := by
        cases cs with
        | nil => rfl
        | cons c cs =>
          cases hrest
          exact (hlf cs rfl).elim
      subst hnil
      rw [List.cons_append, hrest, unified, unified]
      exact (List.prefix_cons_inj _).mpr List.nil_prefix
    · rw [List.cons_append, unified.eq_3 _ fun rest hrest => hcut ⟨rest, hrest⟩]
      exact (List.prefix_cons_inj _).mpr ih
  | case4 c cs hcrlf hcr ih =>
    rw [List.cons_append, unified_cons hcr]
    exact (List.prefix_cons_inj _).mpr ih

theorem count_le_count_unified (cs : List Char) : cs.count '\n' ≤ (unified cs).count '\n' := by
  fun_induction unified cs with
  | case1 => exact Nat.le_refl _
  | case2 cs ih =>
    simpa using ih
  | case3 cs hlf ih =>
    simp
    omega
  | case4 c cs hcrlf hcr ih =>
    have hiff := plainChar_eq_iff (c := c) (d := '\n') (by decide) (by decide)
    simp only [List.count_cons, beq_eq_decide, hiff]
    omega

/-- A carriage return becomes a newline or is dropped. -/
theorem count_lt_or_byteSize_lt (h : '\r' ∈ cs) :
    cs.count '\n' < (unified cs).count '\n' ∨ byteSize (unified cs) < byteSize cs := by
  fun_induction unified cs with
  | case1 => cases h
  | case2 cs ih =>
    have hsize := byteSize_unified_le cs
    have hpos := '\r'.utf8Size_pos
    simp only [byteSize_cons]
    omega
  | case3 cs hlf ih =>
    have hcount := count_le_count_unified cs
    simp only [List.count_cons_self, List.count_cons_of_ne (show '\r' ≠ '\n' by decide)]
    omega
  | case4 c cs hcrlf hcr ih =>
    have hrest := ih ((List.mem_cons.mp h).resolve_left fun h => hcr h.symm)
    have hiff := plainChar_eq_iff (c := c) (d := '\n') (by decide) (by decide)
    simp only [List.count_cons, beq_eq_decide, hiff, byteSize_cons, utf8Size_plainChar]
    omega

/-- With as many newlines, the last line has not become shorter. -/
theorem length_lastLine_le (cs : List Char) (h : cs.count '\n' = (unified cs).count '\n') :
    (lastLine cs).length ≤ (lastLine (unified cs)).length := by
  fun_induction unified cs with
  | case1 => exact Nat.le_refl _
  | case2 cs ih =>
    have hmem : '\n' ∈ '\n' :: cs := List.mem_cons_self
    rw [lastLine_cons_of_mem hmem, lastLine_newline_cons, lastLine_newline_cons]
    rw [List.count_cons_of_ne (by decide), List.count_cons_self, List.count_cons_self] at h
    exact ih (by omega)
  | case3 cs hlf ih =>
    have hcount := count_le_count_unified cs
    rw [List.count_cons_of_ne (by decide), List.count_cons_self] at h
    omega
  | case4 c cs hcrlf hcr ih =>
    have hiff := plainChar_eq_iff (c := c) (d := '\n') (by decide) (by decide)
    have hrest : cs.count '\n' = (unified cs).count '\n' := by
      simp only [List.count_cons, beq_eq_decide, hiff] at h
      omega
    by_cases hmem : '\n' ∈ cs
    · have hmem' : '\n' ∈ unified cs := by
        rw [← List.count_pos_iff, ← hrest, List.count_pos_iff]
        exact hmem
      rw [lastLine_cons_of_mem hmem, lastLine_cons_of_mem hmem']
      exact ih hrest
    · have hmem' : '\n' ∉ unified cs := by
        rw [← List.count_eq_zero, ← hrest, List.count_eq_zero]
        exact hmem
      have hlast := ih hrest
      rw [lastLine_of_notMem hmem, lastLine_of_notMem hmem'] at hlast
      by_cases hc : c = '\n'
      · subst hc
        have hplain : plainChar '\n' = '\n' := rfl
        rw [hplain, lastLine_newline_cons, lastLine_newline_cons]
        exact ih hrest
      · have hplain : plainChar c ≠ '\n' := by rwa [Ne, hiff]
        rw [lastLine_of_notMem (by simp [hmem, Ne.symm hc]),
          lastLine_of_notMem (by simp [hmem', Ne.symm hplain])]
        simpa using hlast

/-- A place is passed where a carriage return has been read, or more than the text so far. -/
theorem placeAfter_ne {before : List Char} (hbefore : unified cs <+: before)
    (hsize : byteSize cs ≤ byteSize before)
    (h : '\r' ∈ cs ∨ byteSize cs < byteSize before) : placeAfter cs ≠ placeAfter before := by
  intro heq
  obtain ⟨more, rfl⟩ := hbefore
  obtain ⟨hline, hcolumn⟩ := Prod.mk.inj heq
  rw [List.count_append] at hline
  have hcount := count_le_count_unified cs
  have hmore : '\n' ∉ more := by
    rw [← List.count_eq_zero]
    omega
  rw [lastLine_append_of_notMem (unified cs) hmore, List.length_append] at hcolumn
  have hlast := length_lastLine_le cs (by omega)
  have hnil : more = [] := List.length_eq_zero_iff.mp (by omega)
  subst hnil
  rw [List.count_nil] at hline
  rw [List.append_nil] at hsize h
  have hshort := byteSize_unified_le cs
  rcases h with h | h
  · rcases count_lt_or_byteSize_lt h with h | h <;> omega
  · omega

end Unified

end ShadingMachine.Text
