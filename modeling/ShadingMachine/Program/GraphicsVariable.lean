import ShadingMachine.Value.Basic

/-! The variables of the graphics state, which every shader can use without declaring them,
and the mask of those that a shader says it uses. -/
namespace ShadingMachine

inductive GraphicsVariable where
  | surfaceColor
  | surfaceOpacity
  | geometricNormal
  | uStep
  | vStep
  | lightVector
  | lightColor
  | lightOpacity
  | position
  | uTangent
  | vTangent
  | normal
  | u
  | v
  | s
  | t
  | incident
  | outputColor
  | outputOpacity
  | lightedPosition
  | eye
  | componentCount
  | time
  | alpha
  | lightedNormal
deriving DecidableEq, Inhabited

namespace GraphicsVariable

/-- In the order of the bits of the mask. -/
def all : List GraphicsVariable :=
  [surfaceColor, surfaceOpacity, geometricNormal, uStep, vStep, lightVector, lightColor,
    lightOpacity, position, uTangent, vTangent, normal, u, v, s, t, incident, outputColor,
    outputOpacity, lightedPosition, eye, componentCount, time, alpha, lightedNormal]

theorem mem_all (x : GraphicsVariable) : x ∈ all := by cases x <;> decide

@[simp] theorem length_all : all.length = 25 := rfl

/-- The name in program texts. -/
def name : GraphicsVariable → String
  | surfaceColor => "Cs"
  | surfaceOpacity => "Os"
  | geometricNormal => "Ng"
  | uStep => "du"
  | vStep => "dv"
  | lightVector => "L"
  | lightColor => "Cl"
  | lightOpacity => "Ol"
  | position => "P"
  | uTangent => "dPdu"
  | vTangent => "dPdv"
  | normal => "N"
  | u => "u"
  | v => "v"
  | s => "s"
  | t => "t"
  | incident => "I"
  | outputColor => "Ci"
  | outputOpacity => "Oi"
  | lightedPosition => "Ps"
  | eye => "E"
  | componentCount => "ncomps"
  | time => "time"
  | alpha => "alpha"
  | lightedNormal => "Ns"

def ofName? (name : String) : Option GraphicsVariable := all.find? (·.name == name)

@[simp] theorem ofName?_name (x : GraphicsVariable) : ofName? x.name = some x := by
  cases x <;> decide

/-- The place in `all`, which is the place of the bit in the mask. -/
def index (x : GraphicsVariable) : Nat := all.idxOf x

theorem index_lt (x : GraphicsVariable) : x.index < 25 := by cases x <;> decide

@[simp] theorem getElem?_all_index (x : GraphicsVariable) : all[x.index]? = some x := by
  cases x <;> rfl

@[simp] theorem index_inj {x y : GraphicsVariable} : x.index = y.index ↔ x = y := by
  refine ⟨fun h => ?_, fun h => h ▸ rfl⟩
  have hx := getElem?_all_index x
  rw [h, getElem?_all_index] at hx
  exact (Option.some.inj hx).symm

def type : GraphicsVariable → ValueType
  | surfaceColor | surfaceOpacity | lightColor | lightOpacity | outputColor | outputOpacity =>
    .color
  | geometricNormal | normal | lightedNormal => .normal
  | lightVector | uTangent | vTangent | incident => .vector
  | position | lightedPosition | eye => .point
  | uStep | vStep | u | v | s | t | componentCount | time | alpha => .float

def detail : GraphicsVariable → Detail
  | eye | componentCount | time | uStep | vStep => .uniform
  | _ => .varying

end GraphicsVariable

/-- A bit for each graphics variable; higher bits mean nothing. -/
structure UsesMask where
  bits : Nat
deriving DecidableEq, Inhabited

namespace UsesMask

def contains (m : UsesMask) (x : GraphicsVariable) : Bool := m.bits.testBit x.index

def insert (m : UsesMask) (x : GraphicsVariable) : UsesMask := ⟨m.bits ||| (1 <<< x.index)⟩

/-- The bits above those of the graphics variables. -/
def unknownBits (m : UsesMask) : Nat := m.bits / 0x2000000 * 0x2000000

def members (m : UsesMask) : List GraphicsVariable := GraphicsVariable.all.filter m.contains

theorem contains_insert (m : UsesMask) (x y : GraphicsVariable) :
    (m.insert x).contains y = (m.contains y || decide (x = y)) := by
  have h : Nat.testBit (1 <<< x.index) y.index = decide (x.index = y.index) := by
    rw [Nat.one_shiftLeft, Nat.testBit_two_pow]
  simp [insert, contains, Nat.testBit_or, h]

end UsesMask

end ShadingMachine
