import ShadingMachine.Proofs.Listing.Instruction
import ShadingMachine.Proofs.Loading.Structure

/-! Reading the listing of a segment: the labels at a position come before the instruction that
begins there, and the jumps find their labels when the segment is complete. -/
namespace ShadingMachine

open Text

namespace Segment

variable {s : Segment}

/-- The labels before a position, in a segment that lists them by position. -/
theorem filter_lt_succ (hs : (s.labels.map (·.position)).Pairwise (· ≤ ·)) (position : Nat) :
    s.labels.filter (·.position < position) ++ s.labelsAt position =
      s.labels.filter (·.position < position + 1) := by
  unfold labelsAt
  generalize s.labels = labels at hs
  induction labels with
  | nil => rfl
  | cons l labels ih =>
    obtain ⟨hl, hlabels⟩ := List.pairwise_cons.mp hs
    by_cases hlt : l.position < position
    · have hne : l.position ≠ position := by omega
      have hlt' : l.position < position + 1 := by omega
      simp only [List.filter_cons, beq_iff_eq, hlt, hne, hlt', decide_true, if_true, if_false,
        List.cons_append, ih hlabels]
    · -- Nothing stands before the position.
      have hge : ∀ x ∈ l :: labels, position ≤ x.position := by
        refine List.forall_mem_cons.mpr ⟨by omega, fun x hx => ?_⟩
        have hle : l.position ≤ x.position := hl x.position (List.mem_map_of_mem hx)
        omega
      have hnone : (l :: labels).filter (·.position < position) = [] := by
        refine List.filter_eq_nil_iff.mpr fun x hx => ?_
        simpa using hge x hx
      rw [hnone, List.nil_append]
      refine List.filter_congr fun x hx => ?_
      have := hge x hx
      rw [Bool.eq_iff_iff, beq_iff_eq, decide_eq_true_eq]
      omega

/-- No label is passed over with an operand. -/
theorem filter_lt_add (hs : (s.labels.map (·.position)).Pairwise (· ≤ ·)) {position n : Nat}
    (h : ∀ i < n, s.labelsAt (position + i) = []) :
    s.labels.filter (·.position < position + n) = s.labels.filter (·.position < position) := by
  induction n with
  | zero => rfl
  | succ n ih =>
    have hlast := filter_lt_succ hs (position + n)
    rw [h n (Nat.lt_succ_self n), List.append_nil] at hlast
    rw [← Nat.add_assoc, ← hlast]
    exact ih fun i hi => h i (Nat.lt_succ_of_lt hi)

end Segment

namespace Loader

variable {p : Program} {P : Draft → Prop} {before after ls : List Lexeme} {l : Lexeme}

/-- A draft with the labels at its end added. -/
def Draft.addLabels (d : Draft) (labels : List Label) : Draft :=
  { d with segment := { d.segment with labels := d.segment.labels ++ labels } }

theorem accepts_labels {labels : List Label} {d : Draft} {n : Nat}
    (hposition : ∀ x ∈ labels, x.position = d.segment.length)
    (hdistinct : ((d.segment.labels ++ labels).map (·.id)).Nodup)
    (hids : ∀ x ∈ labels, x.id < 0x100000000)
    (hrest : Accepts (items n p (d.addLabels labels)) before after P) :
    Accepts (items (labels.length + n) p d) (labels.flatMap Label.lexemes ++ before) after P := by
  induction labels generalizing d with
  | nil =>
    have hd : d.addLabels [] = d := by simp [Draft.addLabels]
    rw [hd] at hrest
    simpa using hrest
  | cons x labels ih =>
    obtain ⟨hx, hlabels⟩ := List.forall_mem_cons.mp hposition
    obtain ⟨hid, hids⟩ := List.forall_mem_cons.mp hids
    have hnew : d.segment.label? x.id = none := by
      rw [List.map_append, List.nodup_append] at hdistinct
      refine List.find?_eq_none.mpr fun y hy => ?_
      have hne := hdistinct.2.2 y.id (List.mem_map_of_mem hy) x.id (by simp)
      simpa using hne
    have hadd : (d.addLabels [x]).addLabels labels = d.addLabels (x :: labels) := by
      simp [Draft.addLabels]
    have hlength : (x :: labels).length + n = labels.length + n + 1 := by
      rw [List.length_cons]
      omega
    rw [hlength, List.flatMap_cons, List.append_assoc]
    refine accepts_atSegmentEnd.bind fun atEnd hatEnd => ?_
    rw [if_neg (by rw [hatEnd]; decide)]
    refine accepts_peek.bind fun t ht => accepts_skip.bind fun _ _ => ?_
    rw [(kind_of_lexeme ht).1]
    refine (accepts_labelDefinition hid hnew).bind fun d' hd' => ?_
    have hd' : d' = d.addLabels [x] := by
      rw [hd', ← hx]
      rfl
    subst hd'
    refine ih hlabels ?_ hids (hadd ▸ hrest)
    simpa [Draft.addLabels] using hdistinct

/-- What is needed of a segment and its program to read the segment back. -/
structure Recoverable (p : Program) (s : Segment) : Prop where
  segment : s.WellFormed p.locals
  names : (p.locals.toList.map (·.name)).Nodup
  words : ∀ d ∈ p.locals, isName d.name = true
  elements : ∀ e ∈ s.elements, e.Listable p.locals
  ids : ∀ x ∈ s.labels, x.id < 0x100000000

/-- The elements of a segment before a position, with jumps that are not resolved, and the labels
before another one. -/
structure Draft.ReadTo (s : Segment) (position bound : Nat) (d : Draft) : Prop where
  elements : d.segment.elements.toList = (s.elements.toList.take position).map Element.pending
  labels : d.segment.labels = s.labels.filter (·.position < bound)
  covered : d.Covered

namespace Draft.ReadTo

variable {s : Segment} {d d' : Draft} {position bound : Nat}

theorem empty (s : Segment) : ReadTo s 0 0 ⟨.empty, []⟩ where
  elements := rfl
  labels := by simp [Segment.empty]
  covered k id h := by simp [Segment.empty] at h

theorem length (h : d.ReadTo s position bound) (hle : position ≤ s.elements.toList.length) :
    d.segment.length = position := by
  have hlength := congrArg List.length h.elements
  rw [List.length_map, List.length_take, Nat.min_eq_left hle, Array.length_toList] at hlength
  exact hlength

theorem addLabels (h : d.ReadTo s position position)
    (hs : (s.labels.map (·.position)).Pairwise (· ≤ ·)) :
    (d.addLabels (s.labelsAt position)).ReadTo s position (position + 1) where
  elements := h.elements
  labels := by
    rw [← Segment.filter_lt_succ hs position, ← h.labels]
    rfl
  covered := h.covered

theorem grow (h : d.ReadTo s position (position + 1)) {e : Element} {os rest : List Element}
    (hs : (s.labels.map (·.position)).Pairwise (· ≤ ·))
    (hes : s.elements.toList.drop position = e :: (os ++ rest))
    (hg : d.Grows d' ((e :: os).map Element.pending))
    (hos : ∀ i < os.length, s.labelsAt (position + 1 + i) = []) :
    d'.ReadTo s (position + 1 + os.length) (position + 1 + os.length) where
  elements := by
    have htake : s.elements.toList.take (position + 1 + os.length) =
        s.elements.toList.take position ++ e :: os := by
      rw [Nat.add_assoc, List.take_add, hes, Nat.add_comm 1, List.take_succ_cons, List.take_left]
    rw [hg.elements, h.elements, htake, List.map_append]
  labels := by rw [hg.labels, h.labels, Segment.filter_lt_add hs hos]
  covered := hg.covered h.covered

end Draft.ReadTo

theorem accepts_end {d : Draft} (hl : endsSegment l = true) (n : Nat) (h : P d) :
    Accepts (items n p d) (l :: ls) (l :: ls) P := by
  cases n with
  | zero => exact accepts_pure h
  | succ n =>
    refine accepts_atSegmentEnd.bind fun atEnd hatEnd => ?_
    rw [if_pos (by rw [hatEnd, hl])]
    exact accepts_pure h

theorem ne_segment_table : ∀ e ∈ Mnemonic.table, e.1 ≠ "segment" := by decide +kernel

theorem endsSegment_opcode {name : String} {operation : Operation}
    (h : Mnemonic.operation? name = some operation) :
    endsSegment (.word, name) = false := by
  obtain ⟨e, he, -⟩ := Option.map_eq_some_iff.mp h
  have hname : e.1 = name := by simpa using List.find?_some he
  have hne := ne_segment_table e (List.mem_of_find?_eq_some he)
  rw [hname] at hne
  simp [endsSegment, hne]

theorem length_le_lexemes (labels : List Label) :
    labels.length ≤ (labels.flatMap Label.lexemes).length := by
  induction labels with
  | nil => exact Nat.le_refl _
  | cons x labels ih =>
    simp only [List.length_cons, List.flatMap_cons, List.length_append, Label.lexemes]
    omega

/-- The labels at the end of what has been read. -/
theorem accepts_labelsAt {s : Segment} (h : Recoverable p s) {position : Nat}
    (hle : position ≤ s.elements.toList.length) {d : Draft} (hd : d.ReadTo s position position)
    {n : Nat} (hn : (s.labelsAt position).length ≤ n)
    (hrest : ∀ d', d'.ReadTo s position (position + 1) →
      Accepts (items (n - (s.labelsAt position).length) p d') before after P) :
    Accepts (items n p d) ((s.labelsAt position).flatMap Label.lexemes ++ before) after P := by
  have hfuel : n = (s.labelsAt position).length + (n - (s.labelsAt position).length) := by omega
  rw [hfuel]
  refine accepts_labels (fun x hx => ?_) ?_ (fun x hx => ?_)
    (hrest _ (hd.addLabels h.segment.ascending))
  · rw [hd.length hle]
    simpa using (List.mem_filter.mp hx).2
  · rw [hd.labels, Segment.filter_lt_succ h.segment.ascending]
    exact h.segment.distinct.sublist (List.filter_sublist.map _)
  · exact h.ids x (List.mem_filter.mp hx).1

theorem accepts_items {s : Segment} (h : Recoverable p s) {position : Nat} {es : List Element}
    (hes : s.elements.toList.drop position = es) (hle : position ≤ s.elements.toList.length)
    (hi : Instructions (Element.Fits p.locals s.HasLabel) es) {d : Draft}
    (hd : d.ReadTo s position position) (hl : endsSegment l = true) {n : Nat}
    (hn : (p.lexemesFrom s position es).length ≤ n) :
    Accepts (items n p d) (p.lexemesFrom s position es ++ l :: ls) (l :: ls)
      (Draft.ReadTo s s.length (s.length + 1)) := by
  induction hi generalizing position d n with
  | nil =>
    have hlabels := length_le_lexemes (s.labelsAt position)
    have hend : position = s.length := by
      have hlength := List.drop_eq_nil_iff.mp hes
      rw [Array.length_toList] at hle hlength
      exact Nat.le_antisymm hle hlength
    subst hend
    exact accepts_labelsAt h hle hd (Nat.le_trans hlabels hn) fun d' hd' => accepts_end hl _ hd'
  | @cons name operation os rest hname ho _ ih =>
    have hlabels := length_le_lexemes (s.labelsAt position)
    have hfit := Segment.labelsFit_drop (fun x hx => (h.segment.boundary x hx).startsAt) position
    rw [hes] at hfit
    have hmem : ∀ e ∈ os, e.Listable p.locals := by
      intro e he
      have hdrop : e ∈ s.elements.toList.drop position := by
        rw [hes]
        simp [he]
      exact h.elements e (Array.mem_toList_iff.mp (List.mem_of_mem_drop hdrop))
    have hos : ∀ e ∈ os, p.IsOperand e := by
      intro e he
      obtain ⟨kind, -, hkind⟩ := exists_of_forall₂ ho e he
      exact Program.isOperand hkind (fun _ hx => ⟨_, hx.choose_spec.1⟩) (hmem e he)
        h.words
    have hlexemes := Program.lexemesFrom_operands hos hfit.tail
    have hnext : s.elements.toList.drop (position + 1 + os.length) = rest := by
      rw [Nat.add_assoc, ← List.drop_drop, hes, Nat.add_comm 1, List.drop_succ_cons, List.drop_left]
    have hlength := congrArg List.length hes
    simp only [List.length_drop, List.length_cons, List.length_append] at hlength
    simp only [Program.lexemesFrom, hlexemes, List.length_append, List.length_cons,
      List.length_map] at hn
    simp only [Program.lexemesFrom, hlexemes, List.append_assoc, List.cons_append]
    refine accepts_labelsAt h hle hd (by omega) fun d₁ hd₁ => ?_
    obtain ⟨m, hm⟩ : ∃ m, n - (s.labelsAt position).length = m + 1 :=
      ⟨n - (s.labelsAt position).length - 1, by omega⟩
    rw [hm]
    refine accepts_atSegmentEnd.bind fun atEnd hatEnd => ?_
    have hopcode : endsSegment (p.elementLexeme (.opcode name operation)) = false :=
      endsSegment_opcode hname
    rw [if_neg (by rw [hatEnd, hopcode]; decide)]
    refine accepts_peek.bind fun t ht => accepts_skip.bind fun _ _ => ?_
    obtain ⟨hkind, htext⟩ := kind_of_lexeme ht
    rw [hkind]
    refine (accepts_instruction h.names hname ho hmem h.ids d₁ htext).bind fun d₂ hd₂ => ?_
    have hnone : ∀ i < os.length, s.labelsAt (position + 1 + i) = [] := by
      intro i hi
      have hget : (os ++ rest)[i]? = some os[i] := by
        rw [List.getElem?_append_left hi, List.getElem?_eq_getElem hi]
      exact hfit.tail i os[i] hget (hos _ (List.getElem_mem hi)).kind
    exact ih hnext (by omega) (hd₁.grow h.segment.ascending hes hd₂ hnone) (by omega)

end Loader

end ShadingMachine
