import ShadingMachine.Machine.Flow
import ShadingMachine.Machine.Rule
import ShadingMachine.Machine.Service
import ShadingMachine.Machine.Strings

/-! One instruction. -/
namespace ShadingMachine.Exec

variable {ε : Type} [Environment ε]

/-- Applies a function to operands of a fixed number. -/
def applyRule (i : Instruction) (r : Rule) : Exec ε Unit := do
  let slots ← pop i r.arity
  let types := slots.map (·.type)
  match r.choose types with
  | some f => produce f.type slots fun args out mask => return f.fill i.name args out mask
  | none =>
    release slots
    throw (.operandType i.name .float (types.headD .float))

/-- The parameter comes first and the number of knots last. -/
def spline (i : Instruction) (f : MathFunction) : Exec ε Unit := do
  let n ← popCount i
  let slots ← pop i (n + 1)
  if n < 4 then warn i s!"needs at least 4 knots, got {n}"
  if let some e := f.spline? n then
    produce e.type slots fun args out mask => return e.fill i.name args out mask

/-- Turns a normal, with the geometric normal of the surface as reference. -/
def faceForward (i : Instruction) : Exec ε Unit := do
  let slots ← pop i 2
  match Environment.graphics? (← environment) .geometricNormal with
  | some reference =>
    let detail := Detail.joinAll (reference.detail :: slots.map (·.detail))
    if let some f := Geometry.facing.choose (slots.map (·.type)) then
      produceAs f.type detail slots fun args out mask =>
        return f.fill i.name (args ++ [reference.toValue]) out mask
  | none =>
    release slots
    throw (.missingGraphicsVariable GraphicsVariable.geometricNormal.name)

def dup (i : Instruction) : Exec ε Unit := do
  match (← machine).stack with
  | [] => throw i.underflow
  | top :: _ =>
    let v ← value top
    pushData v.type v.detail v.data

/-- Executes an instruction. The result says where execution goes on, if it does not with the
next instruction. -/
def dispatch (i : Instruction) : Exec ε (Option Nat) :=
  match i.code.rule? with
  | some r => do applyRule i r; return none
  | none =>
    match i.code with
    | .flow f => flow i f
    | code => do
      match code with
      | .dup => dup i
      | .drop => do release [← popOne i]
      | .debugBreak => serve (note .debug s!"debug_break at pc {i.position}")
      | .pushFloat => pushUniform .float (← ofExcept (i.float 0))
      | .pushString => pushUniform .string (← ofExcept i.string)
      | .pushPoint =>
        let x ← ofExcept (i.float 0)
        let y ← ofExcept (i.float 1)
        let z ← ofExcept (i.float 2)
        pushUniform .point ⟨x, y, z⟩
      | .pushVariable => pushVariable i
      | .pushElement => pushElement i
      | .popVariable => popVariable i
      | .popElement => popElement i
      | .math f => spline i f
      | .geometry .faceForward => faceForward i
      | .string f => string i f
      | .service f => service i f
      | .illumination f => illumination i f
      | _ => pure ()
      return none

/-- The note that is made of an instruction when the machine is traced. -/
def traceLine (kind : SegmentKind) (i : Instruction) : String :=
  let position := toString i.position
  let padding := String.ofList (List.replicate (5 - position.length) ' ')
  s!"{kind.name} {padding}{position} {i.name}"

/-- Executes the next instruction of a segment, and says whether there is another. -/
def step : Exec ε Bool := do
  let m ← machine
  let segment := m.program.segment m.segment
  match segment.instruction? m.segment m.position with
  | none => return false
  | some found =>
    let i ← ofExcept found
    let next := i.position + 1 + i.operands.length
    modifyMachine fun m => { m with position := next }
    if m.config.trace then serve (note .trace (traceLine m.segment i))
    let running := (Environment.states (← environment)).running
    modifyMachine fun m => { m with mask := running }
    if let some target ← dispatch i then
      if segment.length < target then
        throw (.positionOutOfRange m.segment.name target segment.length)
      modifyMachine fun m => { m with position := target }
    return (← machine).position < segment.length

end ShadingMachine.Exec
