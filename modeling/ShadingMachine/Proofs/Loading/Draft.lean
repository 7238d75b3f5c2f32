import ShadingMachine.Proofs.Loading.Accepts
import ShadingMachine.Proofs.Program.WellFormed

/-! Segments while they are read. Their jumps are not resolved, but it is known where they all are,
so that none is left when the labels are looked up. -/
namespace ShadingMachine.Loader

open Text

/-- A jump that has not been resolved. -/
def IsUnresolved (e : Element) : Prop := ∃ id, e = .unresolved id

namespace Draft

/-- Every unresolved jump is on the list. -/
def Covered (d : Draft) : Prop :=
  ∀ k id, d.segment.elements[k]? = some (.unresolved id) → ∃ span, (k, span) ∈ d.jumps

structure WellFormed (ds : Array Declaration) (d : Draft) : Prop where
  instructions : Instructions (Element.Fits ds IsUnresolved) d.segment.elements.toList
  distinct : (d.segment.labels.map (·.id)).Nodup
  ascending : (d.segment.labels.map (·.position)).Pairwise (· ≤ ·)
  boundary : ∀ l ∈ d.segment.labels,
    Segment.Boundary (Element.Fits ds IsUnresolved) d.segment.elements.toList l.position
  covered : d.Covered

theorem wellFormed_empty (ds : Array Declaration) : WellFormed ds ⟨.empty, []⟩ where
  instructions := .nil
  distinct := List.nodup_nil
  ascending := .nil
  boundary _ hl := by cases hl
  covered k id h := by simp [Segment.empty] at h

/-- The elements that reading adds to a draft. -/
structure Grows (d d' : Draft) (es : List Element) : Prop where
  elements : d'.segment.elements.toList = d.segment.elements.toList ++ es
  labels : d'.segment.labels = d.segment.labels
  covered : d.Covered → d'.Covered

theorem Grows.trans {d d' d'' : Draft} {es es' : List Element} (h : d.Grows d' es)
    (h' : d'.Grows d'' es') : d.Grows d'' (es ++ es') where
  elements := by rw [h'.elements, h.elements, List.append_assoc]
  labels := h'.labels.trans h.labels
  covered hd := h'.covered (h.covered hd)

theorem getElem?_push {d : Draft} {e e' : Element} {k : Nat}
    (h : (d.push e).segment.elements[k]? = some e') :
    k = d.segment.length ∧ e' = e ∨ d.segment.elements[k]? = some e' := by
  have hp : (d.segment.elements.push e)[k]? = some e' := h
  rw [Array.getElem?_push] at hp
  split at hp
  · rename_i hk
    exact .inl ⟨hk, (Option.some.inj hp).symm⟩
  · exact .inr hp

theorem grows_push {d : Draft} {e : Element} (he : ¬IsUnresolved e) : d.Grows (d.push e) [e] where
  elements := Array.toList_push
  labels := rfl
  covered hd k id h := by
    rcases getElem?_push h with ⟨-, hu⟩ | hk
    · exact absurd ⟨id, hu.symm⟩ he
    · exact hd k id hk

theorem grows_jump (d : Draft) (id : Nat) (span : Span) :
    d.Grows { d.push (.unresolved id) with jumps := d.jumps ++ [(d.segment.length, span)] }
      [.unresolved id] where
  elements := Array.toList_push
  labels := rfl
  covered hd k id' h := by
    rcases getElem?_push (e := .unresolved id) h with ⟨rfl, -⟩ | hk
    · exact ⟨span, by simp⟩
    · obtain ⟨s, hs⟩ := hd k id' hk
      exact ⟨s, List.mem_append_left _ hs⟩

theorem WellFormed.grow {ds : Array Declaration} {d d' : Draft} {es : List Element}
    (h : d.WellFormed ds) (hg : d.Grows d' es)
    (hes : Instructions (Element.Fits ds IsUnresolved) es) : d'.WellFormed ds where
  instructions := by
    rw [hg.elements]
    exact h.instructions.append hes
  distinct := hg.labels ▸ h.distinct
  ascending := hg.labels ▸ h.ascending
  boundary l hl := by
    obtain ⟨hle, hi⟩ := h.boundary l (hg.labels ▸ hl)
    rw [hg.elements]
    refine ⟨by rw [List.length_append]; omega, ?_⟩
    rw [List.drop_append_of_le_length hle]
    exact hi.append hes
  covered := hg.covered h.covered

theorem WellFormed.addLabel {ds : Array Declaration} {d : Draft} (h : d.WellFormed ds) {id : Nat}
    (hid : d.segment.label? id = none) :
    WellFormed ds { d with segment := { d.segment with
      labels := d.segment.labels ++ [⟨id, d.segment.length⟩] } } where
  instructions := h.instructions
  distinct := by
    have hnew : id ∉ d.segment.labels.map (·.id) := by
      intro hm
      obtain ⟨l, hl, rfl⟩ := List.mem_map.mp hm
      have hnone := List.find?_eq_none.mp hid l hl
      simp at hnone
    rw [List.map_append, List.nodup_append]
    refine ⟨h.distinct, by simp, ?_⟩
    intro a ha b hb
    rw [List.mem_singleton.mp hb]
    rintro rfl
    exact hnew ha
  ascending := by
    rw [List.map_append, List.pairwise_append]
    refine ⟨h.ascending, by simp, ?_⟩
    intro a ha b hb
    obtain ⟨l, hl, rfl⟩ := List.mem_map.mp ha
    rw [List.mem_singleton.mp hb]
    exact (h.boundary l hl).1
  boundary l hl := by
    rcases List.mem_append.mp hl with hl | hl
    · exact h.boundary l hl
    · rw [List.mem_singleton.mp hl]
      refine ⟨Nat.le_refl _, ?_⟩
      show Instructions _ (d.segment.elements.toList.drop d.segment.elements.toList.length)
      rw [List.drop_length]
      exact .nil
  covered := h.covered

end Draft

/-! Reading instructions and labels -/

theorem name_of_ofName? {name : String} {x : GraphicsVariable}
    (h : GraphicsVariable.ofName? name = some x) : x.name = name := by
  have hx := List.find?_some h
  simpa using hx

theorem ne_of_localIndex? {p : Program} {name : String} (h : p.localIndex? name = none) :
    ∀ d ∈ p.locals, d.name ≠ name := by
  intro d hd
  have hn := List.findIdx?_eq_none_iff.mp h d (Array.mem_toList_iff.mpr hd)
  simpa using hn

theorem getElem?_of_localIndex? {p : Program} {name : String} {k : Nat}
    (h : p.localIndex? name = some k) : ∃ d, p.locals[k]? = some d ∧ d.name = name := by
  obtain ⟨hk, hname, -⟩ := List.findIdx?_eq_some_iff_getElem.mp h
  refine ⟨p.locals.toList[k], ?_, by simpa using hname⟩
  rw [← Array.getElem?_toList]
  exact List.getElem?_eq_getElem hk

theorem yields_variableRef (p : Program) (op : String) (needsArray : Bool) (t : Token) :
    Yields (variableRef p op needsArray t) fun r => r.Fits p.locals needsArray := by
  unfold variableRef
  split
  · rename_i k hk
    obtain ⟨d, hd, -⟩ := getElem?_of_localIndex? hk
    refine yields_unless fun harray => yields_unless fun hscalar => yields_pure ⟨d, hd, ?_⟩
    rw [hd, Option.bind_some] at harray hscalar
    cases needsArray <;> cases hl : d.arrayLength.isSome <;> simp [hl] at harray hscalar ⊢
  · rename_i hnone
    split
    · rename_i x hx
      refine yields_unless fun hscalar => yields_pure ⟨by simpa using hscalar, fun d hd => ?_⟩
      rw [name_of_ofName? hx]
      exact ne_of_localIndex? hnone d hd
    · exact yields_failWith _ _ _

theorem yields_operand (p : Program) (name : String) (code : Opcode) (d : Draft)
    (kind : OperandKind) :
    Yields (operand p name code d kind) fun d' =>
      ∃ e, Element.Fits p.locals IsUnresolved code kind e ∧ d.Grows d' [e] := by
  unfold operand
  refine Yields.after fun t => Yields.after fun atEnd => yields_unless fun _ => ?_
  refine Yields.after fun _ => ?_
  split
  · split
    · rename_i n _
      refine yields_pure ⟨.float n.toFloat32, trivial, Draft.grows_push ?_⟩
      rintro ⟨_, ⟨⟩⟩
    · exact yields_fail _ _
  · refine yields_pure ⟨.string _, trivial, Draft.grows_push ?_⟩
    rintro ⟨_, ⟨⟩⟩
  · refine (yields_variableRef p name code.needsArray t).bind fun r hr => ?_
    refine yields_pure ⟨.variable r, hr, Draft.grows_push ?_⟩
    rintro ⟨_, ⟨⟩⟩
  · refine Yields.after fun id => ?_
    exact yields_pure ⟨.unresolved id, ⟨id, rfl⟩, Draft.grows_jump d id t.span⟩
  · exact yields_fail _ _

theorem yields_instruction (p : Program) (d : Draft) (t : Token) :
    Yields (instruction p d t) fun d' =>
      ∃ es, Instructions (Element.Fits p.locals IsUnresolved) es ∧ d.Grows d' es := by
  unfold instruction
  split
  · rename_i operation hoperation
    have hopcode : d.Grows (d.push (.opcode t.text operation)) [.opcode t.text operation] :=
      Draft.grows_push (by rintro ⟨_, ⟨⟩⟩)
    -- What the operands read so far have added.
    have hfold := yields_foldlM (f := operand p t.text operation.code)
      (I := fun kinds d' => ∃ es,
        List.Forall₂ (Element.Fits p.locals IsUnresolved operation.code) kinds es ∧
          d.Grows d' (.opcode t.text operation :: es))
      operation.operands ⟨[], .nil, hopcode⟩ fun kinds d' kind hd' => by
        obtain ⟨es, hes, hg⟩ := hd'
        refine (yields_operand p t.text operation.code d' kind).imp fun d'' hd'' => ?_
        obtain ⟨e, he, hg'⟩ := hd''
        exact ⟨es ++ [e], List.rel_append hes (.cons he .nil), hg.trans hg'⟩
    refine hfold.imp fun d' hd' => ?_
    obtain ⟨es, hes, hg⟩ := hd'
    refine ⟨_, ?_, hg⟩
    have hi := Instructions.cons hoperation hes .nil
    rwa [List.append_nil] at hi
  · exact yields_failWith _ _ _

theorem yields_labelDefinition {ds : Array Declaration} {d : Draft} (h : d.WellFormed ds) :
    Yields (labelDefinition d) (Draft.WellFormed ds) := by
  unfold labelDefinition
  refine Yields.after fun t => Yields.after fun id => yields_unless fun hid => ?_
  exact yields_pure (h.addLabel (by simpa using hid))

theorem yields_items (n : Nat) (p : Program) {d : Draft} (h : d.WellFormed p.locals) :
    Yields (items n p d) (Draft.WellFormed p.locals) := by
  induction n generalizing d with
  | zero => exact yields_pure h
  | succ n ih =>
    unfold items
    refine Yields.after fun atEnd => ?_
    split
    · exact yields_pure h
    · refine Yields.after fun t => Yields.after fun _ => ?_
      split
      · exact (yields_labelDefinition h).bind fun d' hd' => ih hd'
      · refine (yields_instruction p d t).bind fun d' hd' => ?_
        obtain ⟨es, hes, hg⟩ := hd'
        exact ih (h.grow hg hes)
      · exact yields_fail _ _

end ShadingMachine.Loader
