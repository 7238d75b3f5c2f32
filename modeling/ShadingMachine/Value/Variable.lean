import ShadingMachine.Value.Basic

/-! Named variables, arrays of them, and assignment under a mask. -/
namespace ShadingMachine

structure Variable extends Value where
  name : String
  param : Bool
  output : Bool

/-- Why a value cannot be assigned. -/
inductive AssignError where
  | typeMismatch (name : String) (expected found : ValueType)
  | detailMismatch (name : String)
deriving DecidableEq, Inhabited

def AssignError.message : AssignError → String
  | typeMismatch name expected found =>
    s!"cannot assign {found.keyword} value to {expected.keyword} variable '{name}'"
  | detailMismatch name => s!"cannot assign varying value to uniform variable '{name}'"

namespace Variable

/-- A variable with one initial element. -/
def fresh (name : String) (type : ValueType) (detail : Detail) : Variable :=
  { Value.fresh type detail with name, param := false, output := false }

def mapValue (v : Variable) (f : Value → Value) : Variable := { v with toValue := f v.toValue }

def sizeTo (v : Variable) (n : Nat) : Variable := v.mapValue (·.sizeTo n)

def spreadFirst (v : Variable) : Variable := v.mapValue Value.spreadFirst

def set (v : Variable) (s : Storage) (i : Nat) (x : s.Elem) : Variable :=
  v.mapValue (·.set s i x)

@[simp] theorem name_mapValue (v : Variable) (f : Value → Value) :
    (v.mapValue f).name = v.name := rfl
@[simp] theorem toValue_mapValue (v : Variable) (f : Value → Value) :
    (v.mapValue f).toValue = f v.toValue := rfl

/-- Assigns a value: a uniform variable takes the one element whatever the mask, a varying one
takes the elements at the points of the mask. -/
def assign (v : Variable) (source : Value) (mask : Mask) : Except AssignError Variable :=
  if v.type.storage ≠ source.type.storage then
    .error (.typeMismatch v.name v.type source.type)
  else if !v.isVarying && source.isVarying then .error (.detailMismatch v.name)
  else
    let active (i : Nat) : Bool := !v.isVarying || mask.get i
    .ok (v.mapValue fun old => { old with data := old.data.copyWhere source.data active })

end Variable

/-- An array of fixed length. Its elements share its type and detail. -/
structure VariableArray where
  name : String
  type : ValueType
  detail : Detail
  param : Bool
  output : Bool
  elements : Array Variable

namespace VariableArray

def fresh (name : String) (type : ValueType) (detail : Detail) (length : Nat) : VariableArray :=
  let element (i : Nat) : Variable := .fresh s!"{name}[{i}]" type detail
  ⟨name, type, detail, false, false, ((List.range length).map element).toArray⟩

def length (a : VariableArray) : Nat := a.elements.size

@[simp] theorem length_fresh (name : String) (type : ValueType) (detail : Detail) (n : Nat) :
    (fresh name type detail n).length = n := by simp [fresh, length]

def mapElements (a : VariableArray) (f : Variable → Variable) : VariableArray :=
  { a with elements := a.elements.map f }

@[simp] theorem length_mapElements (a : VariableArray) (f : Variable → Variable) :
    (a.mapElements f).length = a.length := by simp [mapElements, length]

end VariableArray

end ShadingMachine
