import ShadingMachine.Machine.Stack
import ShadingMachine.Value.Format

/-! Operations on strings. Those that take a number of operands find it on top of them; a format
comes below its arguments, which alone are counted. A value of another type reads as the empty
string. -/
namespace ShadingMachine

namespace Exec

variable {ε : Type}

def concatStrings (i : Instruction) : Exec ε Unit := do
  let slots ← pop i (← popCount i)
  produce .string slots fun args out mask =>
    return .ok (out.write .string mask fun k => String.join (args.map (·.getString k)))

def formatString (i : Instruction) : Exec ε Unit := do
  let slots ← pop i ((← popCount i) + 1)
  produce .string slots fun args out mask =>
    match args with
    | format :: args => return .ok (out.write .string mask (Format.write format args))
    | [] => return .ok out

variable [Environment ε]

/-- Prints at every running point if an operand varies, and otherwise once. -/
def printFormat (i : Instruction) : Exec ε Unit := do
  let slots ← pop i ((← popCount i) + 1)
  let mask := (← machine).mask
  if let format :: args ← values slots then
    let varying := (Detail.joinAll (slots.map (·.detail))).isVarying
    let points := if varying then mask.ones else [0]
    for k in points do
      serve (Environment.print (Format.write format args k))
  release slots

/-- Whether the subject matches the pattern, point by point. The first pattern that cannot be
read is reported, and none of those matches anything. -/
def answerMatch (engine : Pattern.Engine) (args : List Value) (out : Value) (mask : Mask) :
    Serving ε Value := do
  let [pattern, subject] := args | return out
  let points := (out.points mask).filter (· < out.size)
  if let some text := (points.map pattern.getString).findSome? engine.complaint? then
    Environment.report text
  return out.write .float mask fun k =>
    Scalar.ofBool (engine.occurs (pattern.getString k) (subject.getString k))

def matchPattern (i : Instruction) : Exec ε Unit := do
  let engine := (← machine).config.patterns
  let slots ← pop i 2
  produce .float slots (asked (answerMatch engine))

def string (i : Instruction) : StringFunction → Exec ε Unit
  | .concat => concatStrings i
  | .format => formatString i
  | .printf => printFormat i
  | .matchPattern => matchPattern i

end Exec

end ShadingMachine
