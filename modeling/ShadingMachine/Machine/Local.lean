import ShadingMachine.Machine.Error
import ShadingMachine.Program.Basic
import ShadingMachine.Value.Variable

/-! The declared variables of a machine. -/
namespace ShadingMachine

inductive Local where
  | scalar (v : Variable)
  | array (a : VariableArray)

namespace Local

def ofDeclaration (d : Declaration) : Local :=
  match d.arrayLength with
  | some n =>
    .array
      { VariableArray.fresh d.name d.type d.detail n with param := d.param, output := d.output }
  | none =>
    .scalar { Variable.fresh d.name d.type d.detail with param := d.param, output := d.output }

/-- Changes the variable, or every element of the array. -/
def mapVariables (f : Variable → Variable) : Local → Local
  | scalar v => scalar (f v)
  | array a => array (a.mapElements f)

@[simp] theorem mapVariables_scalar (f : Variable → Variable) (v : Variable) :
    (scalar v).mapVariables f = scalar (f v) := rfl
@[simp] theorem mapVariables_array (f : Variable → Variable) (a : VariableArray) :
    (array a).mapVariables f = array (a.mapElements f) := rfl

/-- The variable, if it is not an array. -/
def scalar? : Local → Except ExecError Variable
  | scalar v => .ok v
  | array a => .error (.arrayNeedsIndex a.name)

def array? : Local → Except ExecError VariableArray
  | array a => .ok a
  | scalar v => .error (.notAnArray v.name)

end Local

/-- The locals in the order of their declarations. -/
abbrev Locals := Array Local

namespace Locals

def ofDeclarations (ds : Array Declaration) : Locals := ds.map Local.ofDeclaration

def scalar? (ls : Locals) (k : Nat) : Except ExecError Variable :=
  match ls[k]? with
  | some l => l.scalar?
  | none => .error (.unknownLocal k)

def array? (ls : Locals) (k : Nat) : Except ExecError VariableArray :=
  match ls[k]? with
  | some l => l.array?
  | none => .error (.unknownLocal k)

/-- For a grid of `n` points; the new points of a varying local copy its first. -/
def sizeTo (ls : Locals) (n : Nat) : Locals := ls.map (Local.mapVariables (·.sizeTo n))

/-- The first point of every varying local at all of its points. -/
def spreadFirst (ls : Locals) : Locals := ls.map (Local.mapVariables Variable.spreadFirst)

@[simp] theorem size_sizeTo (ls : Locals) (n : Nat) : (ls.sizeTo n).size = ls.size := by
  simp [sizeTo]
@[simp] theorem size_spreadFirst (ls : Locals) : ls.spreadFirst.size = ls.size := by
  simp [spreadFirst]

end Locals

end ShadingMachine
