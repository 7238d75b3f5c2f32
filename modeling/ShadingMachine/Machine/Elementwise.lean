import ShadingMachine.Machine.Error

/-! Functions that are applied point by point. The result varies if an operand does, and then
only its active points are written; a uniform operand has the same element at every point. -/
namespace ShadingMachine

/-- Functions of elements, one argument after the other. -/
@[reducible] def Curried (α : Type) : List Storage → Type
  | [] => α
  | s :: inputs => s.Elem → Curried α inputs

namespace Curried

variable {α : Type}

/-- A function of a list of `n` elements of one storage. -/
def ofList (s : Storage) : (n : Nat) → (List s.Elem → α) → Curried α (List.replicate n s)
  | 0, f => f []
  | n + 1, f => fun x => ofList s n fun xs => f (x :: xs)

/-- Applied to the elements of values at a point. -/
def applyAt : (inputs : List Storage) → Curried α inputs → List Value → Nat → α
  | [], a, _, _ => a
  | s :: inputs, f, v :: vs, i => applyAt inputs (f (v.get s i)) vs i
  | s :: inputs, f, [], i => applyAt inputs (f s.initial) [] i

end Curried

/-- A function of elements and the type of its result. -/
structure Elementwise where
  type : ValueType
  inputs : List Storage
  output : Storage
  apply : Curried output.Elem inputs

namespace Elementwise

/-- Each operand must have the storage that its place asks for. -/
def checkOperands (op : String) : List Storage → List Value → Except ExecError Unit
  | s :: inputs, v :: vs =>
    if v.data.storage = s then checkOperands op inputs vs else .error (.operandType op s v.type)
  | _, _ => .ok ()

/-- Writes the result at the points of the mask. -/
def fill (f : Elementwise) (op : String) (args : List Value) (out : Value) (mask : Mask) :
    Except ExecError Value := do
  checkOperands op f.inputs args
  if out.data.storage ≠ f.output then throw (.operandType op f.output out.type)
  return out.write f.output mask (Curried.applyAt f.inputs f.apply args)

end Elementwise

/-- A function that an opcode chooses by the types of its operands; there may be none for
those types. -/
structure Rule where
  arity : Nat
  choose : List ValueType → Option Elementwise

namespace Rule

/-- One function whatever the types. -/
def of (f : Elementwise) : Rule := ⟨f.inputs.length, fun _ => some f⟩

/-- No function for any types. -/
def undefined (arity : Nat) : Rule := ⟨arity, fun _ => none⟩

/-- By the type of the first operand. -/
def byFirst (arity : Nat) (f : ValueType → Elementwise) : Rule :=
  ⟨arity, fun types => types.head?.map f⟩

end Rule

end ShadingMachine
