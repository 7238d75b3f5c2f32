import Mathlib.Algebra.GroupWithZero.Nat
import ShadingMachine.Machine.Step
import ShadingMachine.Proofs.Grid.Instruction
import ShadingMachine.Proofs.Structured.Point

/-! Structured code: statements that work point by point, put together by sequence, branch and loop.
A block stands in a segment with its scopes and jumps; and it can be read at a single point as an
ordinary program, without any mask. -/
namespace ShadingMachine

/-- Whether an opcode moves operands or computes point by point, whichever points run. -/
def Opcode.isElementwise : Opcode → Bool
  | flow _ => false
  | code => code.isPointwise

theorem Opcode.isPointwise_of_isElementwise {c : Opcode} (h : c.isElementwise = true) :
    c.isPointwise = true := by
  cases c <;> first | exact h | cases h

/-- An opcode with what stands behind it. -/
structure Statement where
  name : String
  operation : Operation
  operands : List Element
  complete : operands.length = operation.operands.length

namespace Statement

def elements (w : Statement) : List Element := .opcode w.name w.operation :: w.operands

/-- The number of elements. -/
def size (w : Statement) : Nat := w.operands.length + 1

def instruction (w : Statement) (position : Nat) : Instruction :=
  ⟨w.name, w.operation.code, position, w.operands⟩

def scope (name : String) (f : Flow) : Statement := ⟨name, ⟨.flow f, []⟩, [], rfl⟩

def jump (name : String) (f : Flow) (target : Label) : Statement :=
  ⟨name, ⟨.flow f, [.label]⟩, [.label target], rfl⟩

@[simp] theorem length_elements (w : Statement) : w.elements.length = w.size := rfl
@[simp] theorem size_scope (name : String) (f : Flow) : (scope name f).size = 1 := rfl
@[simp] theorem size_jump (name : String) (f : Flow) (l : Label) : (jump name f l).size = 2 := rfl

end Statement

def codeSize (ws : List Statement) : Nat := (ws.map Statement.size).sum

@[simp] theorem codeSize_nil : codeSize [] = 0 := rfl
@[simp] theorem codeSize_cons (w : Statement) (ws : List Statement) :
    codeSize (w :: ws) = w.size + codeSize ws := by simp [codeSize]
@[simp] theorem codeSize_append (ws vs : List Statement) :
    codeSize (ws ++ vs) = codeSize ws + codeSize vs := by simp [codeSize]

/-- A branch and a loop have the numbers of their two labels. -/
inductive Block where
  | code (statements : List Statement)
  | seq (first second : Block)
  | branch (a b : Nat) (condition : List Statement) (yes no : Block)
  | loop (a b : Nat) (condition : List Statement) (body : Block)

namespace Block

/-- The number of elements. -/
def size : Block → Nat
  | code c => codeSize c
  | seq b b' => b.size + b'.size
  | branch _ _ c yes no => codeSize c + 5 + yes.size + 3 + no.size + 1
  | loop _ _ c body => 1 + codeSize c + 4 + body.size + 2 + 1

/-- The block as it stands at a place. The points of a branch that fail the condition run the second
alternative while those that pass it wait, and a part that no point runs is jumped over; in a loop
the points that fail the condition wait until none is left. -/
def statements : Block → Nat → List Statement
  | code c, _ => c
  | seq b b', k => b.statements k ++ b'.statements (k + b.size)
  | branch a b c yes no, k =>
    let start := k + codeSize c + 5
    let middle := start + yes.size
    let stop := middle + 3 + no.size
    c ++ [.scope "S_GET" .setCurrent, .scope "RS_PUSH" .enterScope, .scope "RS_GET" .selectCurrent,
        .jump "RS_JZ" .jumpNoRunning ⟨a, middle⟩] ++
      yes.statements start ++
      [.scope "RS_INVERSE" .invertScope, .jump "RS_JZ" .jumpNoRunning ⟨b, stop⟩] ++
      no.statements (middle + 3) ++ [.scope "RS_POP" .leaveScope]
  | loop a b c body, k =>
    let start := k + 1 + codeSize c + 4
    let stop := start + body.size + 2
    .scope "RS_PUSH" .enterScope :: c ++
      [.scope "S_GET" .setCurrent, .scope "RS_GET" .selectCurrent,
        .jump "RS_JZ" .jumpNoRunning ⟨b, stop⟩] ++
      body.statements start ++ [.jump "jmp" .jump ⟨a, k + 1⟩, .scope "RS_POP" .leaveScope]

@[simp] theorem codeSize_statements (b : Block) (k : Nat) : codeSize (b.statements k) = b.size := by
  induction b generalizing k with
  | code c => rfl
  | seq b b' ih ih' => simp [statements, size, ih, ih']
  | branch _ _ c yes no ihyes ihno => simp [statements, size, ihyes, ihno]; omega
  | loop _ _ c body ih => simp [statements, size, ih]; omega

end Block

namespace Segment

/-- The statements stand at a place of the segment. -/
def Holds (s : Segment) (k : Nat) (ws : List Statement) : Prop :=
  ∃ before after, s.elements.toList = before ++ ws.flatMap Statement.elements ++ after ∧
    before.length = k

variable {s : Segment} {k : Nat} {w : Statement} {ws vs : List Statement}

theorem length_flatMap_elements (ws : List Statement) :
    (ws.flatMap Statement.elements).length = codeSize ws := by
  simp [codeSize, List.length_flatMap]

theorem Holds.append_left (h : s.Holds k (ws ++ vs)) : s.Holds k ws := by
  obtain ⟨before, after, hs, hk⟩ := h
  exact ⟨before, vs.flatMap Statement.elements ++ after, by simpa using hs, hk⟩

theorem Holds.append_right (h : s.Holds k (ws ++ vs)) : s.Holds (k + codeSize ws) vs := by
  obtain ⟨before, after, hs, hk⟩ := h
  refine ⟨before ++ ws.flatMap Statement.elements, after, by simpa using hs, ?_⟩
  rw [List.length_append, hk, length_flatMap_elements]

theorem Holds.tail (h : s.Holds k (w :: ws)) : s.Holds (k + w.size) ws := by
  simpa using (show s.Holds k ([w] ++ ws) from h).append_right

theorem Holds.le (h : s.Holds k ws) : k + codeSize ws ≤ s.length := by
  obtain ⟨before, after, hs, rfl⟩ := h
  have hlen : s.length = s.elements.toList.length := by simp [Segment.length]
  rw [hlen, hs, List.length_append, List.length_append, length_flatMap_elements]
  omega

theorem Holds.instruction? (h : s.Holds k (w :: ws)) (kind : SegmentKind) :
    s.instruction? kind k = some (.ok (w.instruction k)) := by
  have hle := h.le
  obtain ⟨before, after, hs, rfl⟩ := h
  have hhead : s.elements[before.length]? = some (.opcode w.name w.operation) := by
    rw [← Array.getElem?_toList, hs]
    simp [Statement.elements]
  have hoperands : (s.elements.extract (before.length + 1)
      (before.length + 1 + w.operation.operands.length)).toList = w.operands := by
    rw [Array.toList_extract, hs, ← w.complete]
    have hnil : before.drop (before.length + 1) = [] := List.drop_of_length_le (by omega)
    simp [Statement.elements, List.extract, List.drop_append, hnil]
  have hstop : ¬s.length < before.length + 1 + w.operation.operands.length := by
    rw [← w.complete]
    simp only [codeSize_cons, Statement.size] at hle
    omega
  simp only [Segment.instruction?, hhead, Option.map_some, if_neg hstop, hoperands]
  rfl

end Segment

namespace Exec

/-- Statements one after the other, wherever they stand. -/
def runCode : List Statement → Exec Grid Unit
  | [] => return ()
  | w :: ws => do
    let _ ← dispatch (w.instruction 0)
    runCode ws

end Exec

namespace Point

/-- A grid of that point alone, which runs. -/
def session (p : Point) : Session Grid where
  machine := { Machine.fresh ⟨.surface, "", ⟨0⟩, #[], .empty, .empty⟩ .standard with
    locals := p.locals }
  host := ⟨{ Grid.fresh 0 0 with graphics := p.graphics }, #[]⟩

/-- What the variables hold after code. -/
def after? (p : Point) (c : List Statement) : Option Point :=
  match Exec.runCode c p.session with
  | .ok _ s => some ⟨s.machine.locals, s.host.env.graphics⟩
  | .error .. => none

/-- Whether a condition holds: code that leaves one float. -/
def holds? (p : Point) (c : List Statement) : Option Bool :=
  match Exec.runCode c p.session with
  | .ok _ s =>
    match s.machine.stack with
    | [slot] => some (Scalar.holds ((s.machine.pools.value slot).getFloat 0))
    | _ => none
  | .error .. => none

end Point

/-- Read at a point as an ordinary program, the block ends and leaves these values. -/
inductive Block.Computes : Block → Point → Point → Prop
  | code {c : List Statement} {p q : Point} : p.after? c = some q → Computes (.code c) p q
  | seq {b b' : Block} {p q r : Point} : Computes b p q → Computes b' q r →
    Computes (.seq b b') p r
  | branch_yes {l l' : Nat} {c : List Statement} {yes no : Block} {p q : Point} :
    p.holds? c = some true → Computes yes p q → Computes (.branch l l' c yes no) p q
  | branch_no {l l' : Nat} {c : List Statement} {yes no : Block} {p q : Point} :
    p.holds? c = some false → Computes no p q → Computes (.branch l l' c yes no) p q
  | loop_done {l l' : Nat} {c : List Statement} {body : Block} {p : Point} :
    p.holds? c = some false → Computes (.loop l l' c body) p p
  | loop_again {l l' : Nat} {c : List Statement} {body : Block} {p q r : Point} :
    p.holds? c = some true → Computes body p q → Computes (.loop l l' c body) q r →
    Computes (.loop l l' c body) p r

namespace Block

/-- At most so many rounds of a loop. -/
def rounds? (c : List Statement) (body : Point → Option Point) : Nat → Point → Option Point
  | 0, _ => none
  | limit + 1, p =>
    match p.holds? c with
    | some true => (body p).bind (rounds? c body limit)
    | some false => some p
    | none => none

/-- What the block leaves at a point, if no loop goes more rounds than `limit`. -/
def run? (limit : Nat) : Block → Point → Option Point
  | code c, p => p.after? c
  | seq b b', p => (b.run? limit p).bind (b'.run? limit)
  | branch _ _ c yes no, p =>
    match p.holds? c with
    | some true => yes.run? limit p
    | some false => no.run? limit p
    | none => none
  | loop _ _ c body, p => rounds? c (body.run? limit) limit p

variable {l l' : Nat} {c : List Statement} {body : Block}

theorem computes_of_rounds? {run : Point → Option Point}
    (hbody : ∀ p q, run p = some q → body.Computes p q) {limit : Nat} {p q : Point}
    (h : rounds? c run limit p = some q) : (loop l l' c body).Computes p q := by
  induction limit generalizing p with
  | zero => cases h
  | succ limit ih =>
    unfold rounds? at h
    split at h
    · rename_i hv
      obtain ⟨r, hr, hrest⟩ := Option.bind_eq_some_iff.mp h
      exact .loop_again hv (hbody p r hr) (ih hrest)
    · rename_i hv
      cases h
      exact .loop_done hv
    · cases h

theorem computes_of_run? {limit : Nat} {b : Block} {p q : Point} (h : b.run? limit p = some q) :
    b.Computes p q := by
  induction b generalizing p q with
  | code c => exact .code h
  | seq b b' ih ih' =>
    obtain ⟨r, hr, hrest⟩ := Option.bind_eq_some_iff.mp h
    exact .seq (ih hr) (ih' hrest)
  | branch _ _ c yes no ihyes ihno =>
    unfold run? at h
    split at h
    · rename_i hv
      exact .branch_yes hv (ihyes h)
    · rename_i hv
      exact .branch_no hv (ihno h)
    · cases h
  | loop _ _ c body ih => exact computes_of_rounds? (fun _ _ => ih) h

end Block

end ShadingMachine
