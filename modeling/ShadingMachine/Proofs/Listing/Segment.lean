import ShadingMachine.Proofs.Listing.Lexemes
import ShadingMachine.Proofs.Number.ReadBack

/-! The lexemes of the listing of a segment, instruction by instruction. No label stands between an
opcode and its operands, so that its line stays open. -/
namespace ShadingMachine

open Text

/-- An element that is written behind an opcode. -/
structure Program.IsOperand (p : Program) (e : Element) : Prop where
  kind : e.isOpcode = false
  text : Open (p.operandListing e).toList [p.elementLexeme e]

theorem Program.open_float {p : Program} {x : Float32} (h : x.isFinite = true) :
    p.IsOperand (.float x) := by
  refine ⟨rfl, ?_⟩
  have hsome : (Number.numeral? (Number.Layout.compact.write x).toList).isSome := by
    rw [← Option.isSome_map (f := Number.Numeral.toFloat32), Number.numeral?_write h]
    rfl
  have hopen := open_numeral hsome
  rwa [String.ofList_toList] at hopen

theorem Program.open_string {p : Program} {s : String} (h : '\x00' ∉ s.toList) :
    p.IsOperand (.string s) := by
  refine ⟨rfl, ?_⟩
  have hclosed := closed_string h
  have htext : (p.operandListing (.string s)).toList = Quoted.quote s.toList :=
    String.toList_ofList
  rw [htext]
  exact hclosed.open

theorem Program.open_variable {p : Program} {r : VariableRef} {needsArray : Bool}
    (h : r.Fits p.locals needsArray) (hnames : ∀ d ∈ p.locals, isName d.name = true) :
    p.IsOperand (.variable r) := by
  refine ⟨rfl, ?_⟩
  cases r with
  | declared k =>
    obtain ⟨d, hd, -⟩ := h
    have hname : p.operandListing (.variable (.declared k)) = d.name := by
      simp only [operandListing, hd]
    have hopen := open_name (hnames d (Array.mem_of_getElem? hd))
    rw [← hname] at hopen
    exact hopen
  | graphics x => exact open_name (isName_graphics x)

theorem Program.isOperand {p : Program} {isLabel : Element → Prop} {code : Opcode}
    {kind : OperandKind} {e : Element} (h : Element.Fits p.locals isLabel code kind e)
    (hlabel : ∀ e, isLabel e → ∃ l, e = .label l) (he : e.Listable p.locals)
    (hnames : ∀ d ∈ p.locals, isName d.name = true) : p.IsOperand e := by
  cases kind with
  | float =>
    cases e with
    | float x => exact open_float he
    | _ => cases h
  | string =>
    cases e with
    | string s => exact open_string he
    | _ => cases h
  | «variable» =>
    cases e with
    | «variable» r => exact open_variable h hnames
    | _ => cases h
  | label =>
    have hl : isLabel e := by cases e <;> exact h
    obtain ⟨l, rfl⟩ := hlabel e hl
    exact ⟨rfl, open_natural l.id⟩

namespace Segment

theorem labelsAt_eq_nil {s : Segment} (hlabels : ∀ l ∈ s.labels, s.StartsAt l.position)
    {position : Nat} {e : Element} (he : s.elements[position]? = some e)
    (hkind : e.isOpcode = false) : s.labelsAt position = [] := by
  refine List.filter_eq_nil_iff.mpr fun l hl hposition => ?_
  rw [beq_iff_eq] at hposition
  subst hposition
  rcases hlabels l hl with hend | ⟨name, operation, hopcode⟩
  · have hlt := (Array.getElem?_eq_some_iff.mp he).1
    have hlength : s.length = s.elements.size := rfl
    omega
  · rw [he] at hopcode
    cases hopcode
    cases hkind

/-- The elements from a position on carry no label but at opcodes. -/
def LabelsFit (s : Segment) (position : Nat) (es : List Element) : Prop :=
  ∀ i e, es[i]? = some e → e.isOpcode = false → s.labelsAt (position + i) = []

theorem LabelsFit.tail {s : Segment} {position : Nat} {e : Element} {es : List Element}
    (h : s.LabelsFit position (e :: es)) : s.LabelsFit (position + 1) es := by
  intro i e' he' hkind
  have hi := h (i + 1) e' he' hkind
  rwa [Nat.add_comm i, ← Nat.add_assoc] at hi

theorem LabelsFit.drop {s : Segment} {position : Nat} {os es : List Element}
    (h : s.LabelsFit position (os ++ es)) : s.LabelsFit (position + os.length) es := by
  intro i e he hkind
  rw [Nat.add_assoc]
  refine h (os.length + i) e ?_ hkind
  rw [List.getElem?_append_right (Nat.le_add_right _ _), Nat.add_sub_cancel_left]
  exact he

theorem LabelsFit.take {s : Segment} {position : Nat} {os es : List Element}
    (h : s.LabelsFit position (os ++ es)) : s.LabelsFit position os := by
  intro i e he hkind
  have hi := (List.getElem?_eq_some_iff.mp he).1
  exact h i e (by rwa [List.getElem?_append_left hi]) hkind

theorem labelsFit_drop {s : Segment} (hlabels : ∀ l ∈ s.labels, s.StartsAt l.position)
    (position : Nat) : s.LabelsFit position (s.elements.toList.drop position) := by
  intro i e he hkind
  rw [List.getElem?_drop, Array.getElem?_toList] at he
  exact labelsAt_eq_nil hlabels he hkind

end Segment

theorem exists_of_forall₂ {α β : Type} {R : α → β → Prop} {xs : List α} {ys : List β}
    (h : List.Forall₂ R xs ys) : ∀ y ∈ ys, ∃ x ∈ xs, R x y := by
  induction h with
  | nil => simp
  | cons hxy _ ih =>
    refine List.forall_mem_cons.mpr ⟨⟨_, List.mem_cons_self, hxy⟩, fun y hy => ?_⟩
    obtain ⟨x, hx, hR⟩ := ih y hy
    exact ⟨x, List.mem_cons_of_mem _ hx, hR⟩

theorem Mnemonic.isName_of_operation? {name : String} {o : Operation}
    (h : operation? name = some o) : isName name = true := by
  obtain ⟨e, he, -⟩ := Option.map_eq_some_iff.mp h
  have hname : e.1 = name := by simpa using List.find?_some he
  exact hname ▸ isName_table e (List.mem_of_find?_eq_some he)

namespace Program

variable {p : Program} {s : Segment}

theorem lexemesFrom_operands {os es : List Element} {position : Nat}
    (hos : ∀ e ∈ os, p.IsOperand e) (hlabels : s.LabelsFit position (os ++ es)) :
    p.lexemesFrom s position (os ++ es) =
      os.map p.elementLexeme ++ p.lexemesFrom s (position + os.length) es := by
  induction os generalizing position with
  | nil => rfl
  | cons e os ih =>
    have hnone := hlabels 0 e rfl (hos e List.mem_cons_self).kind
    rw [Nat.add_zero] at hnone
    have hrest := ih (fun e' he' => hos e' (List.mem_cons_of_mem e he')) hlabels.tail
    rw [Nat.add_assoc, Nat.add_comm 1] at hrest
    simp [lexemesFrom, hnone, hrest]

/-- What the listing of a segment writes for one element and the labels before it. -/
def Lines.add (p : Program) (s : Segment) (l : Lines) (e : Element × Nat) : Lines :=
  (l.addLabels s.labels e.2).addElement p e.1

theorem Lines.lexes_operands {os : List Element} {position : Nat} {l : Lines} {ls : List Lexeme}
    (h : l.Lexes ls) (hopen : l.isOpen = true) (hos : ∀ e ∈ os, p.IsOperand e)
    (hlabels : s.LabelsFit position os) :
    ((os.zipIdx position).foldl (Lines.add p s) l).Lexes (ls ++ os.map p.elementLexeme) := by
  induction os generalizing position l ls with
  | nil => simpa using h
  | cons e os ih =>
    have he := hos e List.mem_cons_self
    have hnone := hlabels 0 e rfl he.kind
    have hadd : Lines.add p s l (e, position) = l.addElement p e := by
      rw [Nat.add_zero] at hnone
      unfold Segment.labelsAt at hnone
      simp only [Lines.add, Lines.addLabels, hnone]
    have hnext := h.addOperand hopen he.kind he.text
    have hrest := ih hnext ((isOpen_addOperand he.kind).trans hopen)
      (fun e' he' => hos e' (List.mem_cons_of_mem e he')) hlabels.tail
    simpa [List.zipIdx_cons, hadd] using hrest

theorem Lines.lexes_instructions {fits : Opcode → OperandKind → Element → Prop}
    {es : List Element} (hes : Instructions fits es) {position : Nat} {l : Lines}
    {ls : List Lexeme} (h : l.Lexes ls)
    (hfits : ∀ code kind, ∀ e ∈ es, fits code kind e → p.IsOperand e)
    (hlabels : s.LabelsFit position es) :
    (((es.zipIdx position).foldl (Lines.add p s) l).addLabels s.labels
      (position + es.length)).Lexes (ls ++ p.lexemesFrom s position es) := by
  induction hes generalizing position l ls with
  | nil => exact h.addLabels s position
  | @cons name operation os rest hn ho _ ih =>
    have hos : ∀ e ∈ os, p.IsOperand e := by
      intro e he
      obtain ⟨kind, -, hkind⟩ := exists_of_forall₂ ho e he
      exact hfits _ kind e (by simp [he]) hkind
    have hname := Mnemonic.isName_of_operation? hn
    have hopcode := (h.addLabels s position).addOpcode p hname operation
    have hoperands := lexes_operands hopcode rfl hos hlabels.tail.take
    have hrest := ih hoperands (fun code kind e he => hfits code kind e (by simp [he]))
      hlabels.tail.drop
    have hlexemes := lexemesFrom_operands hos hlabels.tail
    have hposition : position + (.opcode name operation :: (os ++ rest)).length =
        position + 1 + os.length + rest.length := by
      rw [List.length_cons, List.length_append]
      omega
    rw [hposition, List.zipIdx_cons, List.foldl_cons, List.zipIdx_append, List.foldl_append]
    rw [lexemesFrom, hlexemes]
    simpa [Lines.add, elementLexeme, operandListing] using hrest

/-- The listing of a segment ends a line, or is empty. -/
theorem closed_segmentListing {fits : Opcode → OperandKind → Element → Prop}
    (hs : Instructions fits s.elements.toList)
    (hfits : ∀ code kind, ∀ e ∈ s.elements.toList, fits code kind e → p.IsOperand e)
    (hlabels : ∀ l ∈ s.labels, s.StartsAt l.position) :
    Closed (p.segmentListing s).toList (p.lexemesFrom s 0 s.elements.toList) := by
  have hempty : Lines.Lexes ⟨"", false⟩ [] := closed_nil
  have h := Lines.lexes_instructions hs hempty hfits (Segment.labelsFit_drop hlabels 0)
  have hlength : 0 + s.elements.toList.length = s.length := by
    rw [Nat.zero_add, Array.length_toList]
    rfl
  rw [List.nil_append, hlength] at h
  exact h.close

end Program

end ShadingMachine
