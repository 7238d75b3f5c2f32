import ShadingMachine.Proofs.Text.Endings

/-! An offset of a text with its line endings made alike, taken for an offset of the text itself.
It is the same place of the same line exactly if there is no carriage return before it, no
byte-order mark in front, and nothing on the line that is changed. -/
namespace ShadingMachine.Text

section Offsets

variable {n : Nat} {cs : List Char}

theorem takeBytes_unified_eq_nil (h : takeBytes n cs = []) : takeBytes n (unified cs) = [] := by
  have hshort {c : Char} {rest : List Char} (h : takeBytes n (c :: rest) = []) :
      ¬c.utf8Size ≤ n := by
    intro hfits
    rw [takeBytes, if_pos hfits] at h
    cases h
  fun_cases unified cs with
  | case1 => rfl
  | case2 cs => exact if_neg (hshort h)
  | case3 cs hlf => exact if_neg (hshort h)
  | case4 c cs hcrlf hcr =>
    refine if_neg ?_
    rw [utf8Size_plainChar]
    exact hshort h

/-- What is before an offset of a text is before it in the other one, which is no longer. -/
theorem unified_prefix_takeBytes {m : Nat} (hm : m ≤ n) :
    unified (takeBytes m cs) <+: takeBytes n (unified cs) := by
  have hfront := unified_prefix (takeBytes m cs) (dropBytes m cs)
  rw [takeBytes_append_dropBytes] at hfront
  have hsize := byteSize_takeBytes_le m cs
  have hshort := byteSize_unified_le (takeBytes m cs)
  exact prefix_takeBytes hfront (by omega)

variable (h : '\r' ∉ takeBytes n cs)
include h

/-- Without a carriage return before it, an offset has the same text before it. -/
theorem takeBytes_unified : takeBytes n (unified cs) = (takeBytes n cs).map plainChar := by
  have hsize : byteSize (takeBytes n cs) ≤ n := byteSize_takeBytes_le n cs
  have hparts := unified_append h (dropBytes n cs)
  rw [takeBytes_append_dropBytes] at hparts
  have hrest : takeBytes (n - byteSize (takeBytes n cs)) (dropBytes n cs) = [] := by
    have htaken := takeBytes_append hsize (dropBytes n cs)
    rw [takeBytes_append_dropBytes] at htaken
    exact List.append_right_eq_self.mp htaken.symm
  have hmapped : byteSize ((takeBytes n cs).map plainChar) ≤ n := by
    rwa [byteSize_map_plainChar]
  rw [hparts, takeBytes_append hmapped, byteSize_map_plainChar, takeBytes_unified_eq_nil hrest,
    List.append_nil]

theorem dropBytes_unified : dropBytes n (unified cs) = unified (dropBytes n cs) := by
  have hparts := unified_append h (dropBytes n cs)
  rw [takeBytes_append_dropBytes, ← takeBytes_append_dropBytes n (unified cs),
    takeBytes_unified h] at hparts
  exact List.append_cancel_left hparts

/-- And the same line is quoted, up to its end. -/
theorem quotedLine_unified : Diagnostic.quotedLine (.ofChars (unified cs)) n =
    ((Diagnostic.quotedLine (.ofChars cs) n).takeWhile (· != '\r')).map plainChar := by
  have hlast : ∀ c ∈ lastLine (takeBytes n cs), (c != '\r') = true := by
    intro c hc
    have hmem : c ∈ takeBytes n cs := by
      rw [← wholeLines_append_lastLine (takeBytes n cs)]
      exact List.mem_append_right _ hc
    simpa using fun hcr : c = '\r' => h (hcr ▸ hmem)
  rw [Diagnostic.quotedLine_ofChars, Diagnostic.quotedLine_ofChars, takeBytes_unified h,
    dropBytes_unified h, takeWhile_unified, List.takeWhile_append_of_pos hlast, List.map_append,
    lastLine_map_plainChar]

end Offsets

section BareLine

variable {c : Char} {cs : List Char}

/-- A line without the carriage returns at its end. -/
def bareLine (cs : List Char) : List Char := cs.rdropWhile (· == '\r')

theorem bareLine_cons (h : c ≠ '\r') (cs : List Char) : bareLine (c :: cs) = c :: bareLine cs := by
  rw [bareLine, bareLine, List.rdropWhile, List.rdropWhile, List.reverse_cons,
    List.dropWhile_append]
  split
  · rename_i hempty
    rw [List.isEmpty_iff.mp hempty, List.dropWhile_cons_of_neg (by simpa using h)]
    rfl
  · rw [List.reverse_append]
    rfl

theorem exists_bareLine_append (cs : List Char) :
    ∃ ending, cs = bareLine cs ++ ending ∧ ∀ c ∈ ending, c = '\r' := by
  refine ⟨cs.rtakeWhile (· == '\r'), ?_, fun c hc => ?_⟩
  · simp [bareLine, List.rdropWhile, List.rtakeWhile, ← List.reverse_append]
  · rw [List.rtakeWhile, List.mem_reverse] at hc
    simpa using List.mem_takeWhile_imp hc

/-- A line goes on at least up to its first carriage return. -/
theorem takeWhile_prefix_bareLine (cs : List Char) : cs.takeWhile (· != '\r') <+: bareLine cs := by
  obtain ⟨ending, hcs, hending⟩ := exists_bareLine_append cs
  have hfront : bareLine cs <+: cs := ⟨ending, hcs.symm⟩
  rcases List.prefix_or_prefix_of_prefix (List.takeWhile_prefix (· != '\r')) hfront with h | h
  · exact h
  · obtain ⟨more, hmore⟩ := h
    cases more with
    | nil => exact ⟨[], by rw [← hmore, List.append_nil, List.append_nil]⟩
    | cons c more =>
      have hc : c ∈ cs.takeWhile (· != '\r') := by simp [← hmore]
      have hparts := List.takeWhile_append_dropWhile (p := (· != '\r')) (l := cs)
      rw [← hmore, List.append_assoc] at hparts
      have hrest := List.append_cancel_left (hparts.trans hcs)
      have hcr := hending c (by simp [← hrest])
      subst hcr
      simpa using List.mem_takeWhile_imp hc

theorem takeWhile_eq_bareLine (h : '\r' ∉ bareLine cs) :
    cs.takeWhile (· != '\r') = bareLine cs := by
  have hall : ∀ c ∈ bareLine cs, (c != '\r') = true := by
    intro c hc
    simpa using fun hcr : c = '\r' => h (hcr ▸ hc)
  obtain ⟨ending, hcs, -⟩ := exists_bareLine_append cs
  have hlonger : bareLine cs <+: cs.takeWhile (· != '\r') := by
    conv_rhs => rw [hcs]
    rw [List.takeWhile_append_of_pos hall]
    exact List.prefix_append ..
  exact (takeWhile_prefix_bareLine cs).eq_of_length_le hlonger.length_le

end BareLine

/-- The text starts with a byte-order mark. -/
def HasMark (text : List Char) : Prop := text.head? = some '\ufeff'

instance (text : List Char) : Decidable (HasMark text) :=
  inferInstanceAs (Decidable (text.head? = some '\ufeff'))

theorem unifyLineEndings_eq_unifyFrom {text : List Char} (h : ¬HasMark text) :
    unifyLineEndings text = unifyFrom 0 text := by
  unfold unifyLineEndings
  split
  · exact absurd rfl h
  · rfl

theorem unifyLineEndings_of_not_hasMark {text : List Char} (h : ¬HasMark text) :
    (unifyLineEndings text).1 = unified text := by
  rw [unifyLineEndings_eq_unifyFrom h, unifyFrom_fst]

theorem unifyLineEndings_mark (rest : List Char) :
    (unifyLineEndings ('\ufeff' :: rest)).1 = unified rest :=
  unifyFrom_fst 0 rest

/-- Nothing before a place or on its line is changed when line endings are made alike, save what
ends the line. -/
structure Undisturbed (text : List Char) (n : Nat) : Prop where
  mark : ¬HasMark text
  before : '\r' ∉ takeBytes n text
  line : ∀ c ∈ bareLine (Diagnostic.quotedLine (.ofChars text) n), c ≠ '\r' ∧ c ≠ '\x00'

/-- The offset is of the same line and column of both texts, and the lines are the same. -/
structure Agree (text : List Char) (n : Nat) : Prop where
  place : placeAfter (takeBytes n text) = placeAfter (takeBytes n (unifyLineEndings text).1)
  line : bareLine (Diagnostic.quotedLine (.ofChars text) n) =
    Diagnostic.quotedLine (.ofChars (unifyLineEndings text).1) n

section

variable {text : List Char} {n : Nat}

theorem Undisturbed.agree (h : Undisturbed text n) : Agree text n := by
  have hcr : '\r' ∉ bareLine (Diagnostic.quotedLine (.ofChars text) n) :=
    fun hmem => (h.line _ hmem).1 rfl
  have hnul : '\x00' ∉ bareLine (Diagnostic.quotedLine (.ofChars text) n) :=
    fun hmem => (h.line _ hmem).2 rfl
  constructor
  · rw [unifyLineEndings_of_not_hasMark h.mark, takeBytes_unified h.before,
      placeAfter_map_plainChar]
  · rw [unifyLineEndings_of_not_hasMark h.mark, quotedLine_unified h.before,
      takeWhile_eq_bareLine hcr, map_plainChar_eq_self hnul]

/-- Between two characters of the one text, the offset is between two of the other. -/
theorem Undisturbed.isBoundary (h : Undisturbed text n)
    (hn : IsBoundary (unifyLineEndings text).1 n) : IsBoundary text n := by
  rwa [unifyLineEndings_of_not_hasMark h.mark, IsBoundary, takeBytes_unified h.before,
    byteSize_map_plainChar] at hn

/-- A byte-order mark makes its line longer, and offsets on other lines too small. -/
theorem not_agree_mark {rest : List Char} (hn : IsBoundary (unified rest) n) :
    ¬Agree ('\ufeff' :: rest) n := by
  intro h
  obtain ⟨hplace, hline⟩ := h
  rw [unifyLineEndings_mark] at hplace hline
  obtain ⟨hlines, -⟩ := Prod.mk.inj hplace
  by_cases hfirst : '\n' ∈ takeBytes n ('\ufeff' :: rest)
  · -- The mark is on a line before, so that only its bytes matter.
    rw [takeBytes] at hfirst hplace
    split at hfirst
    · rename_i hfits
      have hsize := byteSize_takeBytes_le (n - '\ufeff'.utf8Size) rest
      have hpos := '\ufeff'.utf8Size_pos
      have hmem := (List.mem_cons.mp hfirst).resolve_left (by decide)
      rw [if_pos hfits, placeAfter, List.count_cons_of_ne (by decide),
        lastLine_cons_of_mem hmem] at hplace
      refine placeAfter_ne (unified_prefix_takeBytes (Nat.sub_le ..)) ?_ (.inr ?_) hplace
      · rw [hn]
        omega
      · rw [hn]
        omega
    · cases hfirst
  · have hfirst' : '\n' ∉ takeBytes n (unified rest) := by
      rw [← List.count_eq_zero, ← hlines, List.count_eq_zero]
      exact hfirst
    rw [Diagnostic.quotedLine_of_notMem hfirst, Diagnostic.quotedLine_of_notMem hfirst',
      takeWhile_unified, List.takeWhile_cons_of_pos (by decide), bareLine_cons (by decide)] at hline
    have hlength := congrArg List.length hline
    have hshorter := (takeWhile_prefix_bareLine (rest.takeWhile (· != '\n'))).length_le
    rw [List.length_cons, List.length_map] at hlength
    omega

theorem agree_iff (hn : IsBoundary (unifyLineEndings text).1 n) :
    Agree text n ↔ Undisturbed text n := by
  refine ⟨fun h => ?_, Undisturbed.agree⟩
  have hmark : ¬HasMark text := by
    intro hmark
    obtain ⟨rest, rfl⟩ := List.head?_eq_some_iff.mp hmark
    rw [unifyLineEndings_mark] at hn
    exact not_agree_mark hn h
  obtain ⟨hplace, hline⟩ := h
  rw [unifyLineEndings_of_not_hasMark hmark] at hn hplace hline
  have hbefore : '\r' ∉ takeBytes n text := by
    intro hcr
    have hsize : byteSize (takeBytes n text) ≤ byteSize (takeBytes n (unified text)) :=
      (byteSize_takeBytes_le n text).trans hn.ge
    exact placeAfter_ne (unified_prefix_takeBytes (Nat.le_refl n)) hsize (.inl hcr) hplace
  rw [quotedLine_unified hbefore] at hline
  refine ⟨hmark, hbefore, fun c hc => ?_⟩
  rw [hline] at hc
  obtain ⟨d, hd, rfl⟩ := List.mem_map.mp hc
  refine ⟨?_, plainChar_ne_nul d⟩
  rw [Ne, plainChar_eq_iff (by decide) (by decide)]
  simpa using List.mem_takeWhile_imp hd

end

end ShadingMachine.Text
