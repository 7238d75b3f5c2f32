import Mathlib.Data.List.Forall2
import ShadingMachine.Machine.Instruction

/-! Well-formed programs: segments that are sequences of instructions, each an opcode of the table
with the operands that the table asks for, and labels that stand where an instruction begins or at
the end. -/
namespace ShadingMachine

/-- What is read behind an opcode when it is executed. -/
def Opcode.operandKinds : Opcode → List OperandKind
  | pushFloat => [.float]
  | pushString => [.string]
  | pushPoint => [.float, .float, .float]
  | pushVariable | pushElement | popVariable | popElement | service .attribute
  | service .option => [.variable]
  | flow .jumpNoCurrent | flow .jumpAllCurrent | flow .jumpNoRunning | flow .jumpAllRunning
  | flow .jumpFalse | flow .jumpTrue | flow .jump => [.label]
  | _ => []

/-- The table lists behind each mnemonic what its opcode reads. -/
theorem Mnemonic.operands_table :
    ∀ e ∈ Mnemonic.table, e.2.operands = e.2.code.operandKinds := by
  decide +kernel

theorem Mnemonic.operands_of_operation? {name : String} {o : Operation}
    (h : operation? name = some o) : o.operands = o.code.operandKinds := by
  obtain ⟨e, he, rfl⟩ := Option.map_eq_some_iff.mp h
  exact operands_table e (List.mem_of_find?_eq_some he)

/-- A reference to a variable that is declared as the opcode needs it, or to one of the graphics
state that no declaration hides. -/
def VariableRef.Fits (ds : Array Declaration) (needsArray : Bool) : VariableRef → Prop
  | declared k => ∃ d, ds[k]? = some d ∧ d.arrayLength.isSome = needsArray
  | graphics x => needsArray = false ∧ ∀ d ∈ ds, d.name ≠ x.name

/-- An operand of the right kind; what may stand for a label is left open. -/
def Element.Fits (ds : Array Declaration) (isLabel : Element → Prop) (code : Opcode) :
    OperandKind → Element → Prop
  | .float, .float _ => True
  | .string, .string _ => True
  | .variable, .variable r => r.Fits ds code.needsArray
  | .label, e => isLabel e
  | _, _ => False

/-- A sequence of opcodes of the table, each followed by its operands. -/
inductive Instructions (fits : Opcode → OperandKind → Element → Prop) : List Element → Prop
  | nil : Instructions fits []
  | cons {name operation operands rest} : Mnemonic.operation? name = some operation →
    List.Forall₂ (fits operation.code) operation.operands operands → Instructions fits rest →
    Instructions fits (.opcode name operation :: (operands ++ rest))

namespace Instructions

variable {fits fits' : Opcode → OperandKind → Element → Prop} {xs ys : List Element}

theorem append (hx : Instructions fits xs) (hy : Instructions fits ys) :
    Instructions fits (xs ++ ys) := by
  induction hx with
  | nil => exact hy
  | cons hn ho _ ih =>
    rw [List.cons_append, List.append_assoc]
    exact .cons hn ho ih

theorem forall₂_split {R : Element → Element → Prop} {as bs : List Element}
    (h : List.Forall₂ R (as ++ bs) ys) :
    ∃ cs ds, ys = cs ++ ds ∧ List.Forall₂ R as cs ∧ List.Forall₂ R bs ds := by
  refine ⟨ys.take as.length, ys.drop as.length, (List.take_append_drop _ _).symm, ?_, ?_⟩
  · simpa using List.forall₂_take as.length h
  · simpa using List.forall₂_drop as.length h

theorem forall₂_fits {R : Element → Element → Prop} {code : Opcode} {kinds : List OperandKind}
    (hx : List.Forall₂ (fits code) kinds xs) (hR : List.Forall₂ R xs ys)
    (hoperand : ∀ code kind x y, fits code kind x → R x y → fits' code kind y) :
    List.Forall₂ (fits' code) kinds ys := by
  induction hx generalizing ys with
  | nil =>
    cases hR
    exact .nil
  | cons hk _ ih =>
    obtain ⟨y, ys', hy, hys, rfl⟩ := List.forall₂_cons_left_iff.mp hR
    exact .cons (hoperand _ _ _ _ hk hy) (ih hys)

/-- Operands may be replaced one by one. -/
theorem replace {R : Element → Element → Prop} (hx : Instructions fits xs)
    (hR : List.Forall₂ R xs ys)
    (hopcode : ∀ name operation y, R (.opcode name operation) y → y = .opcode name operation)
    (hoperand : ∀ code kind x y, fits code kind x → R x y → fits' code kind y) :
    Instructions fits' ys := by
  induction hx generalizing ys with
  | nil =>
    cases hR
    exact .nil
  | @cons name operation operands rest hn ho _ ih =>
    obtain ⟨y, ys', hy, hys, rfl⟩ := List.forall₂_cons_left_iff.mp hR
    obtain rfl := hopcode name operation y hy
    obtain ⟨cs, ds, rfl, hcs, hds⟩ := forall₂_split hys
    exact .cons hn (forall₂_fits ho hcs hoperand) (ih hds)

/-- The instructions from one of the opcodes on. -/
theorem drop (hx : Instructions fits xs)
    (hoperand : ∀ code kind e, fits code kind e → e.isOpcode = false) {position : Nat}
    {name : String} {operation : Operation} (h : xs[position]? = some (.opcode name operation)) :
    Instructions fits (xs.drop position) := by
  induction hx generalizing position with
  | nil => cases h
  | @cons name' operation' operands rest hn ho hrest ih =>
    cases position with
    | zero => exact .cons hn ho hrest
    | succ k =>
      rw [List.getElem?_cons_succ] at h
      by_cases hk : k < operands.length
      · have hkinds : k < operation'.operands.length := ho.length_eq ▸ hk
        have hfits := hoperand _ _ _ (ho.get hkinds hk)
        rw [List.getElem?_append_left hk, List.getElem?_eq_getElem hk] at h
        rw [List.get_eq_getElem, Option.some.inj h] at hfits
        cases hfits
      · obtain ⟨j, rfl⟩ := Nat.exists_eq_add_of_le (Nat.le_of_not_lt hk)
        rw [List.getElem?_append_right (Nat.le_add_right _ _), Nat.add_sub_cancel_left] at h
        rw [List.drop_succ_cons, List.drop_length_add_append]
        exact ih h

end Instructions

theorem Element.Fits.isOpcode {ds : Array Declaration} {isLabel : Element → Prop} {code : Opcode}
    {kind : OperandKind} {e : Element} (h : e.Fits ds isLabel code kind)
    (hlabel : ∀ e, isLabel e → e.isOpcode = false) : e.isOpcode = false := by
  cases e with
  | opcode name operation =>
    cases kind with
    | label => exact hlabel _ h
    | _ => cases h
  | _ => rfl

namespace Segment

/-- An element that stands for a label of the segment. -/
def HasLabel (s : Segment) (e : Element) : Prop := ∃ l, e = .label l ∧ s.label? l.id = some l

/-- A place where an instruction begins, or the end. -/
def Boundary (fits : Opcode → OperandKind → Element → Prop) (elements : List Element)
    (position : Nat) : Prop :=
  position ≤ elements.length ∧ Instructions fits (elements.drop position)

/-- An opcode stands there, or it is the end. -/
def StartsAt (s : Segment) (position : Nat) : Prop :=
  position = s.length ∨
    ∃ name operation, s.elements[position]? = some (.opcode name operation)

/-- Against the declarations of its program. -/
structure WellFormed (ds : Array Declaration) (s : Segment) : Prop where
  instructions : Instructions (Element.Fits ds s.HasLabel) s.elements.toList
  distinct : (s.labels.map (·.id)).Nodup
  ascending : (s.labels.map (·.position)).Pairwise (· ≤ ·)
  boundary : ∀ l ∈ s.labels,
    Boundary (Element.Fits ds s.HasLabel) s.elements.toList l.position

theorem wellFormed_empty (ds : Array Declaration) : empty.WellFormed ds where
  instructions := .nil
  distinct := List.nodup_nil
  ascending := .nil
  boundary _ hl := by cases hl

theorem WellFormed.start {ds : Array Declaration} {s : Segment} (h : s.WellFormed ds) :
    Boundary (Element.Fits ds s.HasLabel) s.elements.toList 0 :=
  ⟨Nat.zero_le _, h.instructions⟩

variable {fits : Opcode → OperandKind → Element → Prop} {s : Segment} {position : Nat}

/-- At a boundary before the end stands an opcode of the table with its operands, and what
follows them is a boundary again. -/
theorem Boundary.instruction? (h : Boundary fits s.elements.toList position) (kind : SegmentKind)
    {found : Except ExecError Instruction} (hf : s.instruction? kind position = some found) :
    ∃ i, found = .ok i ∧ i.position = position ∧
      Mnemonic.operation? i.name = some ⟨i.code, i.code.operandKinds⟩ ∧
      List.Forall₂ (fits i.code) i.code.operandKinds i.operands ∧
      Boundary fits s.elements.toList (position + 1 + i.operands.length) := by
  obtain ⟨e, he, rfl⟩ := Option.map_eq_some_iff.mp hf
  obtain ⟨hlt, hget⟩ := List.getElem?_eq_some_iff.mp (Array.getElem?_toList ▸ he)
  have hi := h.2
  rw [List.drop_eq_getElem_cons hlt, hget] at hi
  generalize htail : s.elements.toList.drop (position + 1) = tail at hi
  cases hi with
  | @cons name operation operands rest hn ho hrest =>
    have hkinds := Mnemonic.operands_of_operation? hn
    have hcount := ho.length_eq
    have htotal := congrArg List.length htail
    rw [List.length_drop, List.length_append] at htotal
    have hsize : s.elements.toList.length = s.length := Array.length_toList
    have hstop : ¬s.length < position + 1 + operation.operands.length := by omega
    refine ⟨⟨name, operation.code, position, operands⟩, ?_, rfl, ?_, ?_, ?_, ?_⟩
    · have hextract : (s.elements.extract (position + 1)
          (position + 1 + operation.operands.length)).toList = operands := by
        rw [Array.toList_extract, List.extract_eq_take_drop, htail, hcount, Nat.add_sub_cancel_left]
        exact List.take_left
      simp only [if_neg hstop, hextract]
    · rw [hn, ← hkinds]
    · rw [← hkinds]
      exact ho
    · show position + 1 + operands.length ≤ s.elements.toList.length
      omega
    · rw [← List.drop_drop, htail, List.drop_left]
      exact hrest

theorem Boundary.startsAt (h : Boundary fits s.elements.toList position) :
    s.StartsAt position := by
  obtain ⟨hle, hi⟩ := h
  rcases Nat.eq_or_lt_of_le hle with heq | hlt
  · exact .inl heq
  · rw [List.drop_eq_getElem_cons hlt] at hi
    generalize htail : s.elements.toList.drop (position + 1) = tail at hi
    generalize hget : s.elements.toList[position] = e at hi
    cases hi with
    | @cons name operation operands rest _ _ _ =>
      refine .inr ⟨name, operation, ?_⟩
      rw [← Array.getElem?_toList, ← hget]
      exact List.getElem?_eq_getElem hlt

/-- Among instructions the boundaries are the opcodes and the end. -/
theorem boundary_of_startsAt {ds : Array Declaration}
    (h : Instructions (Element.Fits ds s.HasLabel) s.elements.toList)
    (hp : s.StartsAt position) :
    Boundary (Element.Fits ds s.HasLabel) s.elements.toList position := by
  have hlength : s.elements.toList.length = s.length := Array.length_toList
  rcases hp with rfl | ⟨name, operation, he⟩
  · refine ⟨Nat.le_of_eq hlength.symm, ?_⟩
    rw [← hlength, List.drop_length]
    exact .nil
  · rw [← Array.getElem?_toList] at he
    refine ⟨Nat.le_of_lt (List.getElem?_eq_some_iff.mp he).1, h.drop (fun code kind e hf => ?_) he⟩
    refine hf.isOpcode fun e he => ?_
    obtain ⟨l, rfl, -⟩ := he
    rfl

end Segment

structure Program.WellFormed (p : Program) : Prop where
  names : (p.locals.toList.map (·.name)).Nodup
  lengths : ∀ d ∈ p.locals, ∀ n, d.arrayLength = some n → 1 ≤ n
  init : p.init.WellFormed p.locals
  code : p.code.WellFormed p.locals

theorem Program.WellFormed.segment {p : Program} (h : p.WellFormed) (kind : SegmentKind) :
    (p.segment kind).WellFormed p.locals := by
  cases kind with
  | init => exact h.init
  | code => exact h.code

end ShadingMachine
