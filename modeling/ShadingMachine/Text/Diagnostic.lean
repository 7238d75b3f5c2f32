import ShadingMachine.Text.Printable
import ShadingMachine.Text.Source

/-! What can be wrong with a program text, its wording, and how a report quotes the line
it is about. -/
namespace ShadingMachine.Text

/-- Everything that keeps a text from being a program. -/
inductive Cause where
  | unterminatedString
  | unexpectedChar (c : Char)
  | invalidNumber (text : String)
  | unknownShaderKind (word : String)
  | expectedToken (what : String)
  | invalidUsesMask (text : String)
  | unknownSegment (word : String)
  | segmentOutOfOrder (word : String)
  | unknownType (word : String)
  | unknownStorageClass (word : String)
  | duplicateVariable (name : String)
  | invalidArrayLength (text : String)
  | unknownOpcode (word : String)
  | missingOperand (op expected : String)
  | invalidOperand (op expected found : String)
  | undefinedVariable (name : String)
  | arrayRequired (name : String)
  | duplicateLabel (id : Nat)
  | undefinedLabel (id : Nat)
  | reported (message : String)
deriving DecidableEq, Inhabited

namespace Cause

def message : Cause → String
  | unterminatedString => "Unterminated string literal"
  | unexpectedChar c => "Unexpected character: " ++ charLiteral c
  | invalidNumber s => s!"Invalid number: {s}"
  | unknownShaderKind s => s!"Unknown shader kind: {s}"
  | expectedToken s => s!"Expected {s}"
  | invalidUsesMask s => s!"Invalid USES mask: {s}"
  | unknownSegment s => s!"Unknown segment: {s}"
  | segmentOutOfOrder s => s!"Segment {s} is out of order or repeated"
  | unknownType s => s!"Unknown variable type: {s}"
  | unknownStorageClass s => s!"Expected 'uniform' or 'varying' but found {s}"
  | duplicateVariable s => s!"Variable '{s}' is declared twice"
  | invalidArrayLength s => s!"Invalid array length: {s}"
  | unknownOpcode s => s!"Unknown opcode: {s}"
  | missingOperand op expected => s!"Opcode '{op}' expects a {expected} operand"
  | invalidOperand op expected found =>
    s!"Opcode '{op}' expects a {expected} operand but found {found}"
  | undefinedVariable s => s!"Undefined variable: {s}"
  | arrayRequired s => s!"Indexed access needs an array variable, '{s}' is not one"
  | duplicateLabel id => s!"Label {id} is defined twice"
  | undefinedLabel id => s!"Jump to undefined label {id}"
  | reported s => s

/-- The number under which a family of causes is documented. -/
def code : Cause → Option String
  | unterminatedString | unexpectedChar _ | invalidNumber _ => some "L0001"
  | unknownShaderKind _ | expectedToken _ | invalidUsesMask _ | unknownSegment _
  | segmentOutOfOrder _ => some "L0002"
  | unknownType _ | unknownStorageClass _ | invalidArrayLength _ => some "L0003"
  | unknownOpcode _ => some "L0004"
  | missingOperand .. | invalidOperand .. | arrayRequired _ => some "L0005"
  | undefinedVariable _ => some "L0006"
  | undefinedLabel _ => some "L0007"
  | duplicateVariable _ | duplicateLabel _ => some "L0008"
  | reported _ => none

end Cause

inductive Severity where
  | error
  | warning
deriving DecidableEq, Inhabited

def Severity.word : Severity → String
  | .error => "Error"
  | .warning => "Warning"

structure Diagnostic where
  severity : Severity
  message : String
  code : Option String
  suggestion : Option String
  span : Option Span
deriving DecidableEq, Inhabited

namespace Diagnostic

def ofCause (severity : Severity) (cause : Cause) (span : Option Span) : Diagnostic :=
  ⟨severity, cause.message, cause.code, none, span⟩

def error (message : String) (span : Option Span) : Diagnostic :=
  ⟨.error, message, none, none, span⟩

def warning (message : String) (span : Option Span) : Diagnostic :=
  ⟨.warning, message, none, none, span⟩

def isError (d : Diagnostic) : Bool := d.severity == .error

@[simp] theorem isError_error (m : String) (s : Option Span) : (error m s).isError = true := rfl
@[simp] theorem isError_warning (m : String) (s : Option Span) :
    (warning m s).isError = false := rfl
@[simp] theorem isError_ofCause (v : Severity) (c : Cause) (s : Option Span) :
    (ofCause v c s).isError = (v == .error) := rfl

/-- The line of the text that holds an offset, without its newline. -/
def quotedLine (source : Source) (offset : Nat) : List Char :=
  ((takeBytes offset source.text).reverse.takeWhile (· != '\n')).reverse ++
    (dropBytes offset source.text).takeWhile (· != '\n')

/-- The quoted line and, below it, carets under the range. -/
def caretLines (line : List Char) (column width : Nat) : List Char :=
  let gutter := "\n  | ".toList
  gutter ++ line ++ gutter ++ List.replicate column ' ' ++ List.replicate (max width 1) '^'

/-- The report of a diagnostic about the file of that name; lines and columns count from one. There
is none about a range that cannot be cut out of the text. -/
def render? (d : Diagnostic) (name : String) (source : Source) : Option String := do
  let code := match d.code with
    | some c => s!" [{c}]"
    | none => ""
  let head := d.severity.word ++ code ++ ": " ++ name ++ ":"
  let body ← match d.span with
    | some span => do
      let start := byteSize (takeBytes span.start source.text)
      let (line, column) := source.lineCol start
      let width := (← source.slice? span).length
      let carets := caretLines (quotedLine source start) column width
      pure (s!"{line + 1}:{column + 1}: {d.message}" ++ String.ofList carets)
    | none => pure (" " ++ d.message)
  let tail := match d.suggestion with
    | some s => s!"\n  = suggestion: {s}"
    | none => ""
  return head ++ body ++ tail

/-- The report, if there is one. -/
def render (d : Diagnostic) (name : String) (source : Source) : String :=
  (d.render? name source).getD ""

end Diagnostic

end ShadingMachine.Text
