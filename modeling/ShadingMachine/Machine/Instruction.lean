import ShadingMachine.Machine.Error
import ShadingMachine.Program.Basic

/-! Instructions as they stand in a segment, and what their operands must be. -/
namespace ShadingMachine

structure Instruction where
  name : String
  code : Opcode
  position : Nat
  operands : List Element

namespace Instruction

def underflow (i : Instruction) : ExecError := .stackUnderflow i.name i.position

/-- The operand with a number, if it is of the kind expected. -/
def operand {α : Type} (i : Instruction) (k : Nat) (expected : String)
    (read? : Element → Option α) : Except ExecError α :=
  match i.operands[k]? with
  | some e =>
    match read? e with
    | some a => .ok a
    | none => .error (.malformedElement i.position expected e.describe)
  | none => .error (.malformedElement i.position expected "end of segment")

def float (i : Instruction) (k : Nat) : Except ExecError Float32 :=
  i.operand k "float" fun
    | .float x => some x
    | _ => none

def string (i : Instruction) : Except ExecError String :=
  i.operand 0 "string" fun
    | .string s => some s
    | _ => none

def variableRef (i : Instruction) : Except ExecError VariableRef :=
  i.operand 0 "variable" fun
    | .variable r => some r
    | _ => none

/-- Where the label of a jump stands. -/
def target (i : Instruction) : Except ExecError Nat :=
  match i.operands.head? with
  | some (.label l) => .ok l.position
  | some (.unresolved id) => .error (.unresolvedLabel id i.position)
  | some e => .error (.malformedElement i.position "label" e.describe)
  | none => .error (.malformedElement i.position "label" "end of segment")

end Instruction

/-- The instruction at a place of a segment, if there is any element at all. -/
def Segment.instruction? (s : Segment) (kind : SegmentKind) (position : Nat) :
    Option (Except ExecError Instruction) :=
  s.elements[position]?.map fun
    | .opcode name operation =>
      let stop := position + 1 + operation.operands.length
      if s.length < stop then .error (.positionOutOfRange kind.name stop s.length)
      else .ok ⟨name, operation.code, position, (s.elements.extract (position + 1) stop).toList⟩
    | e => .error (.malformedElement position "opcode" e.describe)

end ShadingMachine
