import ShadingMachine.Formula.Arithmetic
import ShadingMachine.Formula.Geometry
import ShadingMachine.Formula.Spline
import ShadingMachine.Machine.Elementwise
import ShadingMachine.Program.Opcode

/-! The opcodes that are applied point by point to a fixed number of operands. -/
namespace ShadingMachine

namespace Rule

def float₁ (f : Float32 → Float32) : Rule := .of ⟨.float, [.float], .float, f⟩

def float₂ (f : Float32 → Float32 → Float32) : Rule := .of ⟨.float, [.float, .float], .float, f⟩

def float₃ (f : Float32 → Float32 → Float32 → Float32) : Rule :=
  .of ⟨.float, [.float, .float, .float], .float, f⟩

def triple₂ (type : ValueType) (f : Triple Float32 → Triple Float32 → Triple Float32) : Rule :=
  .of ⟨type, [.triple, .triple], .triple, f⟩

def color₂ (f : Color Float32 → Color Float32 → Color Float32) : Rule :=
  .of ⟨.color, [.color, .color], .color, f⟩

end Rule

namespace Arithmetic

def onFloats : Arithmetic → Float32 → Float32 → Float32
  | add, x, y => x + y
  | subtract, x, y => x - y
  | multiply, x, y => x * y
  | divide, x, y => x / y

def onTriples (op : Arithmetic) : Triple Float32 → Triple Float32 → Triple Float32 :=
  Triple.zip op.onFloats

def onColors (op : Arithmetic) : Color Float32 → Color Float32 → Color Float32 :=
  Color.zip op.onFloats

/-- Sum and difference by entries; division is by the inverse on the right. -/
def onMatrices {α : Type} [Scalar α] : Arithmetic → Mat4 α → Mat4 α → Mat4 α
  | add, m, n => m + n
  | subtract, m, n => m - n
  | multiply, m, n => m * n
  | divide, m, n => m.divide n

/-- A float beside a triple or a color stands for three. -/
def rule (op : Arithmetic) : Shape → Rule
  | .floats => .float₂ op.onFloats
  | .triples type => .triple₂ type op.onTriples
  | .colors => .color₂ op.onColors
  | .floatTriple type =>
    .of ⟨type, [.float, .triple], .triple, fun x u => op.onTriples (.splat x) u⟩
  | .tripleFloat type =>
    .of ⟨type, [.triple, .float], .triple, fun u x => op.onTriples u (.splat x)⟩
  | .floatColor => .of ⟨.color, [.float, .color], .color, fun x c => op.onColors (.splat x) c⟩
  | .colorFloat => .of ⟨.color, [.color, .float], .color, fun c x => op.onColors c (.splat x)⟩
  | .matrices => .of ⟨.matrix, [.matrix, .matrix], .matrix, op.onMatrices⟩
  | .strings => .undefined 2

end Arithmetic

namespace Comparison

def onFloats : Comparison → Float32 → Float32 → Bool
  | less, x, y => x < y
  | greater, x, y => y < x
  | greaterEqual, x, y => y ≤ x
  | lessEqual, x, y => x ≤ y
  | equal, x, y => x == y
  | notEqual, x, y => x != y

/-- Whether the comparison asks only if the operands are equal, and which answer it wants. -/
def equality? : Comparison → Option Bool
  | equal => some true
  | notEqual => some false
  | _ => none

/-- The storage of operands that can be told apart but have no order. -/
def unordered? : Shape → Option Storage
  | .triples _ => some .triple
  | .colors => some .color
  | .strings => some .string
  | .matrices => some .matrix
  | _ => none

def sameElement : (s : Storage) → s.Elem → s.Elem → Bool
  | .float, x, y => x == y
  | .string, x, y => x == y
  | .triple, x, y => x == y
  | .color, x, y => x == y
  | .matrix, x, y => x == y

def rule (op : Comparison) (shape : Shape) : Rule :=
  if shape = .floats then .float₂ fun x y => Scalar.ofBool (op.onFloats x y)
  else
    match op.equality?, unordered? shape with
    | some want, some s =>
      .of ⟨.float, [s, s], .float, fun x y => Scalar.ofBool (sameElement s x y == want)⟩
    | _, _ => .undefined 2

end Comparison

namespace MathFunction

/-- A spline has no rule, since the number of its operands is not fixed. -/
def rule? : MathFunction → Option Rule
  | radians => some (.float₁ Formula.radians)
  | degrees => some (.float₁ Formula.degrees)
  | sin => some (.float₁ Float32.sin)
  | asin => some (.float₁ Float32.asin)
  | cos => some (.float₁ Float32.cos)
  | acos => some (.float₁ Float32.acos)
  | tan => some (.float₁ Float32.tan)
  | atan => some (.float₁ Float32.atan)
  | sinh => some (.float₁ Float32.sinh)
  | cosh => some (.float₁ Float32.cosh)
  | tanh => some (.float₁ Float32.tanh)
  | exp => some (.float₁ Float32.exp)
  | sqrt => some (.float₁ Float32.sqrt)
  | inverseSqrt => some (.float₁ fun x => 1 / x.sqrt)
  | log => some (.float₁ Float32.log)
  | abs => some (.float₁ Float32.abs)
  | sign => some (.float₁ Formula.sign)
  | floor => some (.float₁ Float32.floor)
  | ceil => some (.float₁ Float32.ceil)
  | round => some (.float₁ Float32.round)
  | atan2 => some (.float₂ Float32.atan2)
  | logBase => some (.float₂ Formula.logBase)
  | pow => some (.float₂ Float32.pow)
  | mod => some (.float₂ Formula.mod)
  | min => some (.float₂ Scalar.smaller)
  | max => some (.float₂ Scalar.larger)
  | step => some (.float₂ Formula.step)
  | clamp => some (.float₃ Formula.clamp)
  | smoothStep => some (.float₃ Formula.smoothStep)
  | mix => some (.float₃ Formula.mix)
  | pointMin => some (.triple₂ .point (Triple.zip Scalar.smaller))
  | pointMax => some (.triple₂ .point (Triple.zip Scalar.larger))
  | colorMin => some (.color₂ (Color.zip Scalar.smaller))
  | colorMax => some (.color₂ (Color.zip Scalar.larger))
  | pointClamp =>
    some (.of ⟨.point, [.triple, .triple, .triple], .triple, fun u low high =>
      ⟨Formula.clamp u.x low.x high.x, Formula.clamp u.y low.y high.y,
        Formula.clamp u.z low.z high.z⟩⟩)
  | colorClamp =>
    some (.of ⟨.color, [.color, .color, .color], .color, fun c low high =>
      ⟨Formula.clamp c.r low.r high.r, Formula.clamp c.g low.g high.g,
        Formula.clamp c.b low.b high.b⟩⟩)
  | pointMix =>
    some (.of ⟨.point, [.triple, .triple, .float], .triple, fun u v t =>
      Triple.zip (Formula.mix · · t) u v⟩)
  | colorMix =>
    some (.of ⟨.color, [.color, .color, .float], .color, fun c d t =>
      Color.zip (Formula.mix · · t) c d⟩)
  | floatSpline | colorSpline | pointSpline => none

/-- A spline through `n` knots; the parameter comes before them. -/
def spline? (n : Nat) : MathFunction → Option Elementwise
  | floatSpline =>
    some ⟨.float, .float :: .replicate n .float, .float, fun t =>
      Curried.ofList .float n (Formula.spline t)⟩
  | colorSpline =>
    some ⟨.color, .float :: .replicate n .color, .color, fun t =>
      Curried.ofList .color n (Formula.splineColor t)⟩
  | pointSpline =>
    some ⟨.point, .float :: .replicate n .triple, .triple, fun t =>
      Curried.ofList .triple n (Formula.splineTriple t)⟩
  | _ => none

end MathFunction

namespace Geometry

/-- The coordinate of a triple by number, as a result of its own. -/
def coordinate (k : Nat) : Rule := .of ⟨.float, [.triple], .float, fun u => u.get k⟩

/-- The result has the type of the triple. -/
def setCoordinate (k : Nat) : Rule :=
  .byFirst 2 fun type => ⟨type, [.triple, .float], .triple, fun u x => u.set x k⟩

/-- The normal is turned by a reference that follows the operands. -/
def facing : Rule :=
  .byFirst 3 fun type => ⟨type, [.triple, .triple, .triple], .triple, Formula.faceForward⟩

/-- Turning a normal without a reference has no rule, since the reference is then taken from
the environment. -/
def rule? : Geometry → Option Rule
  | xComponent => some (coordinate 0)
  | yComponent => some (coordinate 1)
  | zComponent => some (coordinate 2)
  | setXComponent => some (setCoordinate 0)
  | setYComponent => some (setCoordinate 1)
  | setZComponent => some (setCoordinate 2)
  | component =>
    some (.byFirst 2 fun type =>
      if type.storage = .color then
        ⟨.float, [.color, .float], .float, fun c i => c.get (Scalar.toIndex i)⟩
      else ⟨.float, [.triple, .float], .float, fun u i => u.get (Scalar.toIndex i)⟩)
  | setComponent =>
    some (.byFirst 3 fun type =>
      if type.storage = .color then
        ⟨type, [.color, .float, .float], .color, fun c i x => c.set x (Scalar.toIndex i)⟩
      else
        ⟨type, [.triple, .float, .float], .triple, fun u i x => u.set x (Scalar.toIndex i)⟩)
  | length => some (.of ⟨.float, [.triple], .float, Triple.length⟩)
  | distance => some (.of ⟨.float, [.triple, .triple], .float, fun u v => (u - v).length⟩)
  | normalize => some (.byFirst 1 fun type => ⟨type, [.triple], .triple, Triple.normalize⟩)
  | faceForward => none
  | faceForwardTo => some facing
  | reflect => some (.triple₂ .vector Formula.reflect)
  | refract => some (.of ⟨.vector, [.triple, .triple, .float], .triple, Formula.refract⟩)
  | segmentDistance =>
    some (.of ⟨.float, [.triple, .triple, .triple], .float, Formula.segmentDistance⟩)
  | matrixEntry =>
    some (.of ⟨.float, [.matrix, .float, .float], .float, fun m r c =>
      (m.get? (Scalar.toIndex r) (Scalar.toIndex c)).getD 0⟩)
  | setMatrixEntry =>
    some (.of ⟨.matrix, [.matrix, .float, .float, .float], .matrix, fun m r c x =>
      m.set (Scalar.toIndex r) (Scalar.toIndex c) x⟩)
  | determinant => some (.of ⟨.float, [.matrix], .float, Mat4.determinant⟩)
  | transformPoint => some (.of ⟨.point, [.matrix, .triple], .triple, Mat4.transformPoint⟩)
  | transformVector => some (.of ⟨.vector, [.matrix, .triple], .triple, Mat4.transformVector⟩)
  | transformNormal => some (.of ⟨.normal, [.matrix, .triple], .triple, Mat4.transformNormal⟩)
  | translate =>
    some (.of ⟨.matrix, [.matrix, .triple], .matrix, fun m u => Mat4.translation u * m⟩)
  | scale => some (.of ⟨.matrix, [.matrix, .triple], .matrix, fun m u => Mat4.scaling u * m⟩)
  | rotate =>
    some (.of ⟨.matrix, [.matrix, .float, .triple], .matrix, fun m angle axis =>
      Mat4.rotation angle axis * m⟩)

end Geometry

namespace Opcode

/-- The first of two elements where a condition holds and the second elsewhere. -/
def mergeRule (type : ValueType) : Rule :=
  .of ⟨type, [type.storage, type.storage, .float], type.storage, fun x y c =>
    if Scalar.holds c then x else y⟩

/-- One float for every component, or on the diagonal of a matrix. -/
def ofFloatRule (type : ValueType) : Rule :=
  match type.storage with
  | .triple => .of ⟨type, [.float], .triple, Triple.splat⟩
  | .color => .of ⟨type, [.float], .color, Color.splat⟩
  | .matrix => .of ⟨type, [.float], .matrix, Mat4.diagonal⟩
  | .float | .string => .of ⟨type, [.float], .float, id⟩

def negateRule (type : ValueType) : Rule :=
  match type.storage with
  | .triple => .of ⟨type, [.triple], .triple, fun u => -u⟩
  | .color => .of ⟨type, [.color], .color, fun c => -c⟩
  | .matrix => .of ⟨type, [.matrix], .matrix, fun m => -m⟩
  | .float | .string => .of ⟨type, [.float], .float, fun x => -x⟩

/-- The function of an opcode that is applied point by point to operands of a fixed number. -/
def rule? : Opcode → Option Rule
  | merge type => some (mergeRule type)
  | buildTriple type => some (.of ⟨type, [.float, .float, .float], .triple, Triple.mk⟩)
  | buildColor => some (.of ⟨.color, [.float, .float, .float], .color, Color.mk⟩)
  | buildMatrix =>
    some (.of ⟨.matrix, .replicate 16 .float, .matrix,
      Curried.ofList .float 16 fun xs => (Mat4.ofList? xs).getD .identity⟩)
  | ofFloat type => some (ofFloatRule type)
  | tripleToColor => some (.of ⟨.color, [.triple], .color, Color.ofTriple⟩)
  | colorToTriple type => some (.of ⟨type, [.color], .triple, Color.toTriple⟩)
  | arithmetic op shape => some (op.rule shape)
  | dot => some (.of ⟨.float, [.triple, .triple], .float, Triple.dot⟩)
  | cross type => some (.triple₂ type Triple.cross)
  | negate type => some (negateRule type)
  | compare op shape => some (op.rule shape)
  | and => some (.float₂ fun x y => Scalar.ofBool (Scalar.holds x && Scalar.holds y))
  | or => some (.float₂ fun x y => Scalar.ofBool (Scalar.holds x || Scalar.holds y))
  | not => some (.float₁ fun x => Scalar.ofBool (x == 0))
  | math f => f.rule?
  | geometry f => f.rule?
  | _ => none

end Opcode

end ShadingMachine
