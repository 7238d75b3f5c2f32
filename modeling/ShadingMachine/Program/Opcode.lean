import ShadingMachine.Value.Basic

/-! The operations of the machine. An opcode fixes the types that are taken from the stack;
its operation also lists what follows the mnemonic in a program. -/
namespace ShadingMachine

inductive Arithmetic where
  | add
  | subtract
  | multiply
  | divide
deriving DecidableEq, Inhabited

inductive Comparison where
  | less
  | greater
  | greaterEqual
  | lessEqual
  | equal
  | notEqual
deriving DecidableEq, Inhabited

/-- The operands of a binary operation. A shape with a triple carries the result's type, which
is that of the triple, of two triples the left one. -/
inductive Shape where
  | floats
  | triples (type : ValueType)
  | colors
  | floatTriple (type : ValueType)
  | tripleFloat (type : ValueType)
  | floatColor
  | colorFloat
  | matrices
  | strings
deriving DecidableEq, Inhabited

inductive MathFunction where
  | radians
  | degrees
  | sin
  | asin
  | cos
  | acos
  | tan
  | atan
  | atan2
  | sinh
  | cosh
  | tanh
  | exp
  | sqrt
  | inverseSqrt
  | log
  | logBase
  | abs
  | sign
  | floor
  | ceil
  | round
  | pow
  | mod
  | min
  | max
  | step
  | clamp
  | smoothStep
  | mix
  | pointMin
  | pointMax
  | colorMin
  | colorMax
  | pointClamp
  | colorClamp
  | pointMix
  | colorMix
  | floatSpline
  | colorSpline
  | pointSpline
deriving DecidableEq, Inhabited

inductive Geometry where
  | xComponent
  | yComponent
  | zComponent
  | setXComponent
  | setYComponent
  | setZComponent
  | component
  | setComponent
  | length
  | distance
  | normalize
  | faceForward
  | faceForwardTo
  | reflect
  | refract
  | segmentDistance
  | matrixEntry
  | setMatrixEntry
  | determinant
  | transformPoint
  | transformVector
  | transformNormal
  | translate
  | scale
  | rotate
deriving DecidableEq, Inhabited

inductive StringFunction where
  | concat
  | format
  | printf
  | matchPattern
deriving DecidableEq, Inhabited

/-- What the environment of the machine is asked for. -/
inductive Service where
  /-- Into a named space, from the current one or, with `between`, from another named one. -/
  | transform (type : ValueType) (between : Bool)
  | transformColor (between : Bool)
  | depth
  | calculateNormal
  | area
  | alongU (type : ValueType)
  | alongV (type : ValueType)
  | derivative (type : ValueType)
  | random (type : ValueType)
  | noise (type : ValueType) (dimensions : Nat)
  | cellNoise (type : ValueType) (dimensions : Nat)
  | ambient
  | diffuse
  | specular
  | phong
  | texture (type : ValueType) (coordinates : Bool)
  | surroundings (type : ValueType)
  | shadow
  | trace
  | attribute
  | option
deriving DecidableEq, Inhabited

/-- The steps of an illuminance loop, and the emission of light shaders. -/
inductive Illumination where
  | start
  | startCategory
  | advance
  | illuminance
  | illuminanceCategory
  | illuminate
  | illuminateAll
  | solar
  | solarAll
deriving DecidableEq, Inhabited

/-- Scopes of running points, selections, and jumps on the current points, on the running
points, and on a popped condition. -/
inductive Flow where
  | enterScope
  | leaveScope
  | selectCurrent
  | invertScope
  | clearCurrent
  | setCurrent
  | jumpNoCurrent
  | jumpAllCurrent
  | jumpNoRunning
  | jumpAllRunning
  | jumpFalse
  | jumpTrue
  | jump
deriving DecidableEq, Inhabited

inductive Opcode where
  | nop
  | dup
  | drop
  | debugBreak
  | pushFloat
  | pushString
  | pushPoint
  | pushVariable
  | pushElement
  | popVariable
  | popElement
  | merge (type : ValueType)
  | buildTriple (type : ValueType)
  | buildColor
  | buildMatrix
  | ofFloat (type : ValueType)
  | tripleToColor
  | colorToTriple (type : ValueType)
  | arithmetic (op : Arithmetic) (shape : Shape)
  | dot
  | cross (type : ValueType)
  | negate (type : ValueType)
  | compare (op : Comparison) (shape : Shape)
  | and
  | or
  | not
  | math (f : MathFunction)
  | geometry (f : Geometry)
  | string (f : StringFunction)
  | service (f : Service)
  | illumination (f : Illumination)
  | flow (f : Flow)
deriving DecidableEq, Inhabited

namespace Opcode

/-- Whether the operand is where execution may go on. -/
def isJump : Opcode → Bool
  | flow .jumpNoCurrent | flow .jumpAllCurrent | flow .jumpNoRunning | flow .jumpAllRunning
  | flow .jumpFalse | flow .jumpTrue | flow .jump => true
  | _ => false

/-- Whether the variable must be an array. -/
def needsArray : Opcode → Bool
  | pushElement | popElement => true
  | _ => false

end Opcode

/-- What may follow a mnemonic in a program. -/
inductive OperandKind where
  | float
  | string
  | variable
  | label
deriving DecidableEq, Inhabited

def OperandKind.describe : OperandKind → String
  | .float => "number"
  | .string => "string"
  | .variable => "variable"
  | .label => "label"

structure Operation where
  code : Opcode
  operands : List OperandKind
deriving DecidableEq, Inhabited

end ShadingMachine
