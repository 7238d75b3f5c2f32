import ShadingMachine.Proofs.Text.OnLine
import ShadingMachine.Proofs.Text.UnifiedLayout
import ShadingMachine.Proofs.Text.VersionLine

/-! Texts with more lines at their ends. Up to its end a text is scanned as before, and then the new
lines are. -/
namespace ShadingMachine.Text

/-- The text with more lines. Its last line need not have ended. -/
def appendLines (text : List Char) (lines : List (List Char)) : List Char :=
  (if text.getLast? = some '\n' then text else text ++ ['\n']) ++ lines.flatMap (· ++ ['\n'])

/-- The tokens are the same up to the end of the text, where the second text goes on with `more`. -/
inductive GoesOn (more : List Token) : List Token → List Token → Prop
  | last {t : Token} : t.kind = .endOfInput → GoesOn more [t] more
  | cons {t : Token} {ts ts' : List Token} : t.kind ≠ .endOfInput → GoesOn more ts ts' →
    GoesOn more (t :: ts) (t :: ts')

variable {a b cs text : List Char} {lines : List (List Char)} {more ts ts' : List Token}
  {ls : List Lexeme} {t : Token}

theorem goesOn_append (hlast : t.kind = .endOfInput) (hts : ∀ t ∈ ts, t.kind ≠ .endOfInput) :
    GoesOn more (ts ++ [t]) (ts ++ more) := by
  induction ts with
  | nil => exact .last hlast
  | cons t ts ih =>
    obtain ⟨ht, hts⟩ := List.forall_mem_cons.mp hts
    exact .cons ht (ih hts)

/-- A token that is not the end is in both texts. -/
theorem GoesOn.uncons (h : GoesOn more (t :: ts) ts') (ht : t.kind ≠ .endOfInput) :
    ∃ rest, ts' = t :: rest ∧ GoesOn more ts rest := by
  cases h with
  | last hend => exact absurd hend ht
  | cons _ h => exact ⟨_, rfl, h⟩

theorem GoesOn.dropWhile {P : Token → Bool} {rest : List Token} (h : GoesOn more ts ts')
    (hrest : ts.dropWhile P = t :: rest) (ht : t.kind ≠ .endOfInput) :
    GoesOn more (ts.dropWhile P) (ts'.dropWhile P) := by
  induction h with
  | @last last hlast =>
    rw [List.dropWhile_cons] at hrest
    split at hrest
    · cases hrest
    · obtain ⟨rfl, -⟩ := List.cons.inj hrest
      exact absurd hlast ht
  | @cons first ts ts' hfirst h ih =>
    rw [List.dropWhile_cons, List.dropWhile_cons]
    rw [List.dropWhile_cons] at hrest
    split at hrest
    · rename_i hP
      rw [if_pos hP, if_pos hP]
      exact ih hrest
    · rename_i hP
      rw [if_neg hP, if_neg hP]
      exact .cons hfirst h

theorem GoesOn.length_add (h : GoesOn more ts ts') : ts'.length + 1 = ts.length + more.length := by
  induction h with
  | last => rw [List.length_singleton, Nat.add_comm]
  | cons _ _ ih =>
    rw [List.length_cons, List.length_cons]
    omega

theorem GoesOn.length_le (h : GoesOn more ts ts') (hmore : more ≠ []) :
    ts.length ≤ ts'.length := by
  have hlength := h.length_add
  have hpos := List.length_pos_iff.mpr hmore
  omega

theorem GoesOn.ne_nil (h : GoesOn more ts ts') : ts ≠ [] := by
  cases h <;> exact List.cons_ne_nil _ _

theorem IsBoundary.dropBytes_append {n : Nat} (h : IsBoundary a n) (b : List Char) :
    dropBytes n (a ++ b) = dropBytes n a ++ b := by
  have hdrop := dropBytes_byteSize_append (takeBytes n a) (dropBytes n a ++ b)
  rwa [← List.append_assoc, takeBytes_append_dropBytes, show byteSize (takeBytes n a) = n from h]
    at hdrop

/-! The line endings of the longer text -/

/-- A newline is one however the text before it ends. -/
theorem exists_unified_newline (cs : List Char) :
    ∃ a, ∀ rest, unified (cs ++ '\n' :: rest) = a ++ '\n' :: unified rest := by
  by_cases hreturn : cs.getLast? = some '\r'
  · obtain ⟨front, rfl⟩ := List.getLast?_eq_some_iff.mp hreturn
    refine ⟨unified front, fun rest => ?_⟩
    rw [List.append_assoc, unified_append_of (.inl (by simp))]
    rfl
  · exact ⟨unified cs, fun rest => unified_append_of (.inr hreturn)⟩

theorem exists_unified_appendLines (text : List Char) (lines : List (List Char)) :
    ∃ a, (unified text = a ∨ unified text = a ++ ['\n']) ∧
      unified (appendLines text lines) = a ++ '\n' :: unified (lines.flatMap (· ++ ['\n'])) := by
  unfold appendLines
  split
  · rename_i hnewline
    obtain ⟨front, rfl⟩ := List.getLast?_eq_some_iff.mp hnewline
    obtain ⟨a, ha⟩ := exists_unified_newline front
    refine ⟨a, .inr (ha []), ?_⟩
    rw [List.append_assoc]
    exact ha _
  · rw [List.append_assoc, List.singleton_append]
    by_cases hreturn : text.getLast? = some '\r'
    · obtain ⟨front, rfl⟩ := List.getLast?_eq_some_iff.mp hreturn
      refine ⟨unified front, .inr (unified_append_of (.inl (by simp))), ?_⟩
      rw [List.append_assoc, unified_append_of (.inl (by simp))]
      rfl
    · exact ⟨unified text, .inl rfl, unified_append_of (.inr hreturn)⟩

theorem appendLines_cons {c : Char} (hc : c ≠ '\n') (text : List Char) (lines : List (List Char)) :
    appendLines (c :: text) lines = c :: appendLines text lines := by
  have hlast : (c :: text).getLast? = some '\n' ↔ text.getLast? = some '\n' := by
    rw [List.getLast?_cons]
    cases text.getLast? <;> simp [hc]
  unfold appendLines
  simp only [hlast]
  split <;> rfl

theorem exists_unifyLineEndings_appendLines (text : List Char) (lines : List (List Char)) :
    ∃ a, ((unifyLineEndings text).1 = a ∨ (unifyLineEndings text).1 = a ++ ['\n']) ∧
      (unifyLineEndings (appendLines text lines)).1 =
        a ++ '\n' :: unified (lines.flatMap (· ++ ['\n'])) := by
  by_cases hmark : HasMark text
  · obtain ⟨text, rfl⟩ := List.head?_eq_some_iff.mp hmark
    rw [appendLines_cons (by decide), unifyLineEndings_mark, unifyLineEndings_mark]
    exact exists_unified_appendLines text lines
  · have hmark' : ¬HasMark (appendLines text lines) := by
      cases text with
      | nil => simp [HasMark, appendLines]
      | cons c text =>
        by_cases hc : c = '\n'
        · subst hc
          unfold appendLines HasMark
          split <;> simp
        · rwa [appendLines_cons hc]
    rw [unifyLineEndings_of_not_hasMark hmark, unifyLineEndings_of_not_hasMark hmark']
    exact exists_unified_appendLines text lines

/-! The tokens of the longer text -/

/-- A string that breaks off is not closed by a newline alone. -/
theorem BreaksOff.faults_newline (h : BreaksOff a) (pos : Nat) :
    (scanFrom pos (a ++ ['\n'])).2 ≠ [] := by
  induction h generalizing pos with
  | @here cs hcs =>
    obtain ⟨body, hbody, rfl⟩ := hcs
    have hpiece := piece_string (body ++ ['\\', '\n'])
    rw [stringTail_of_isQuotable hbody] at hpiece
    rw [List.cons_append, List.append_assoc]
    exact scanFrom_fault hpiece pos
  | @later c cs hrest ih =>
    have hends : EndsLine ['\n'] := fun x hx => (Option.some.inj hx).symm
    have hpiece := piece_endsLine hrest.not_dangles hends
    rw [List.cons_append]
    cases hkind : (piece c cs).1 with
    | token kind =>
      rw [hkind] at hpiece
      rw [scanFrom_token hpiece]
      exact ih _
    | gap =>
      rw [hkind] at hpiece
      rw [scanFrom_gap hpiece]
      exact ih _
    | fault cause =>
      rw [hkind] at hpiece
      exact scanFrom_fault hpiece pos

/-- A text without faults is, up to a newline at its end, one that does not break off. -/
theorem scan_of_newline (hclean : (scan cs).2 = []) (hcs : cs = a ∨ cs = a ++ ['\n']) :
    ¬BreaksOff a ∧ (scan a).2 = [] ∧ ∃ last, (scan cs).1 = (scan a).1.dropLast ++ [last] := by
  rcases hcs with rfl | rfl
  · have hlast := dropLast_scanFrom 0 cs
    rw [scanFrom] at hlast
    exact ⟨not_breaksOff_of_clean hclean, hclean, _, hlast.symm⟩
  · have hbreak : ¬BreaksOff a := fun h => h.faults_newline 0 hclean
    have hscan : scan (a ++ ['\n']) = _ := scanFrom_newline hbreak 0 []
    rw [scanFrom, List.append_nil] at hscan
    exact ⟨hbreak, (congrArg Prod.snd hscan).symm.trans hclean, _, congrArg Prod.fst hscan⟩

theorem Closed.scanFrom (h : Closed cs ls) (pos : Nat) : (scanFrom pos cs).2 = [] ∧
    (scanFrom pos cs).1.map Token.lexeme = ls ++ [(.endOfInput, "")] := by
  obtain ⟨tokens, hscans, rfl⟩ := (h []).scans pos
  have hscan := hscans.eq
  rw [List.append_nil, Text.scanFrom] at hscan
  rw [hscan, List.map_append]
  exact ⟨rfl, rfl⟩

/-- Of a text without faults that goes on with more lines, these are read behind all the rest. -/
theorem goesOn_appendLines (hclean : (scan (unifyLineEndings text).1).2 = [])
    (hlines : Closed (lines.flatMap (· ++ ['\n'])) ls) :
    ∃ more, more.map Token.lexeme = ls ++ [(.endOfInput, "")] ∧
      (scan (unifyLineEndings (appendLines text lines)).1).2 = [] ∧
      GoesOn more (scan (unifyLineEndings text).1).1
        (scan (unifyLineEndings (appendLines text lines)).1).1 := by
  obtain ⟨a, htext, happended⟩ := exists_unifyLineEndings_appendLines text lines
  rw [unified_eq_self (hlines []).plain] at happended
  obtain ⟨hbreak, ha, last, htokens⟩ := scan_of_newline hclean htext
  obtain ⟨hfaults, hlexemes⟩ := hlines.scanFrom (0 + byteSize a + 1)
  have hscan := scanFrom_newline hbreak 0 (lines.flatMap (· ++ ['\n']))
  obtain ⟨spans, htiling⟩ := tiling_scanFrom [] (unifyLineEndings text).1
  obtain ⟨inner, hinner, hkinds⟩ := htiling.ended
  obtain ⟨rfl, -⟩ := List.append_inj' (htokens.symm.trans hinner) rfl
  refine ⟨_, hlexemes, ?_, ?_⟩
  · rw [happended, scan, hscan, hfaults, List.append_nil]
    exact ha
  · rw [happended, scan, scan, hscan, show (Text.scanFrom 0 _).1 = _ from hinner]
    exact goesOn_append rfl fun t ht => (hkinds t ht).1

/-- What is left of the line of a token is the same, too. -/
theorem restOfLine_appendLines (hclean : (scan (unifyLineEndings text).1).2 = [])
    (ht : t ∈ (scan (unifyLineEndings text).1).1) (hkind : t.kind ≠ .endOfInput) :
    (dropBytes t.span.stop (unifyLineEndings (appendLines text lines)).1).takeWhile (· != '\n') =
      (dropBytes t.span.stop (unifyLineEndings text).1).takeWhile (· != '\n') := by
  obtain ⟨a, htext, happended⟩ := exists_unifyLineEndings_appendLines text lines
  obtain ⟨-, -, last, htokens⟩ := scan_of_newline hclean htext
  obtain ⟨spans, htiled⟩ := tiled_scan (unifyLineEndings text).1
  obtain ⟨inner, hinner, -⟩ := htiled.ended
  have hlast := (List.append_inj' (htokens.symm.trans hinner) rfl).2
  have hmem : t ∈ (scan a).1 := by
    rw [htokens, List.mem_append] at ht
    refine List.dropLast_subset _ (ht.resolve_right fun hlast' => hkind ?_)
    rw [hlast, List.mem_singleton] at hlast'
    rw [hlast']
  obtain ⟨spans', htiled'⟩ := tiled_scan a
  have hboundary := (htiled'.placed _ (htiled'.tokensInOrder.mem (List.mem_map_of_mem hmem))).2
  have hline (rest : List Char) : (dropBytes t.span.stop (a ++ '\n' :: rest)).takeWhile (· != '\n') =
      (dropBytes t.span.stop a).takeWhile (· != '\n') := by
    rw [hboundary.dropBytes_append]
    exact IsSeparator.takeWhile_append rfl _ rest
  rw [happended, hline]
  rcases htext with htext | htext
  · rw [htext]
  · rw [htext, hline]

end ShadingMachine.Text
