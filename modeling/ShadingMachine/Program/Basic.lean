import ShadingMachine.Program.GraphicsVariable
import ShadingMachine.Program.Mnemonic

/-! Shading programs: declarations, and two segments of opcodes with their operands. -/
namespace ShadingMachine

inductive ShaderKind where
  | surface
  | lightsource
  | volume
  | displacement
  | transformation
  | imager
deriving DecidableEq, Inhabited

namespace ShaderKind

def all : List ShaderKind := [surface, lightsource, volume, displacement, transformation, imager]

def keyword : ShaderKind → String
  | surface => "surface"
  | lightsource => "lightsource"
  | volume => "volume"
  | displacement => "displacement"
  | transformation => "transformation"
  | imager => "imager"

def ofKeyword? (word : String) : Option ShaderKind := all.find? (·.keyword == word)

@[simp] theorem ofKeyword?_keyword (k : ShaderKind) : ofKeyword? k.keyword = some k := by
  cases k <;> decide

end ShaderKind

/-- A variable operand: a declared local by its number, or a variable of the graphics state. -/
inductive VariableRef where
  | declared (index : Nat)
  | graphics (name : GraphicsVariable)
deriving DecidableEq, Inhabited

/-- A place to jump to: a position among the elements of a segment. -/
structure Label where
  id : Nat
  position : Nat
deriving DecidableEq, Inhabited

inductive Element where
  | opcode (name : String) (operation : Operation)
  | float (value : Float32)
  | string (text : String)
  | variable (ref : VariableRef)
  | label (target : Label)
  /-- A jump whose label has not been looked up. -/
  | unresolved (id : Nat)
deriving BEq, Inhabited

namespace Element

def describe : Element → String
  | opcode .. => "opcode"
  | float _ => "float"
  | string _ => "string"
  | .variable _ => "variable"
  | label _ => "label"
  | unresolved _ => "unresolved label"

def isOpcode : Element → Bool
  | opcode .. => true
  | _ => false

end Element

structure Declaration where
  name : String
  type : ValueType
  detail : Detail
  param : Bool
  output : Bool
  arrayLength : Option Nat
deriving DecidableEq, Inhabited

inductive SegmentKind where
  | init
  | code
deriving DecidableEq, Inhabited

def SegmentKind.name : SegmentKind → String
  | init => "Init"
  | code => "Code"

/-- Elements, and the labels in the order of their definition. -/
structure Segment where
  elements : Array Element
  labels : List Label
deriving BEq, Inhabited

namespace Segment

def empty : Segment := ⟨#[], []⟩

def length (s : Segment) : Nat := s.elements.size

def label? (s : Segment) (id : Nat) : Option Label := s.labels.find? (·.id == id)

def instructionCount (s : Segment) : Nat := s.elements.toList.countP Element.isOpcode

@[simp] theorem length_empty : empty.length = 0 := rfl
@[simp] theorem label?_empty (id : Nat) : empty.label? id = none := rfl

end Segment

structure Program where
  kind : ShaderKind
  version : String
  uses : UsesMask
  locals : Array Declaration
  init : Segment
  code : Segment
deriving BEq, Inhabited

namespace Program

def segment (p : Program) : SegmentKind → Segment
  | .init => p.init
  | .code => p.code

def setSegment (p : Program) (kind : SegmentKind) (s : Segment) : Program :=
  match kind with
  | .init => { p with init := s }
  | .code => { p with code := s }

@[simp] theorem segment_setSegment (p : Program) (kind : SegmentKind) (s : Segment) :
    (p.setSegment kind s).segment kind = s := by
  cases kind <;> rfl

/-- The number of the local of that name. -/
def localIndex? (p : Program) (name : String) : Option Nat :=
  p.locals.toList.findIdx? (·.name == name)

def params (p : Program) : List Declaration := p.locals.toList.filter (·.param)

end Program

end ShadingMachine
