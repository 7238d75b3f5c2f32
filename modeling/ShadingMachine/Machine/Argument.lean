import ShadingMachine.Machine.State
import ShadingMachine.Value.ColorSpace

/-! Values given to parameters from outside. Numbers come in one list, as many for each element
as its type has components. Points, vectors, normals and matrices may be given in a named space
and colors in a named color space. -/
namespace ShadingMachine

inductive Argument where
  | floats (xs : List Float32)
  | strings (xs : List String)

/-- The list in pieces of `n`, those that are complete. -/
def completePieces {α : Type} (n : Nat) (xs : List α) : List (List α) :=
  (List.range (xs.length / n)).map fun k => (xs.drop (k * n)).take n

/-- A uniform value of one element. -/
def Value.single (type : ValueType) (x : type.storage.Elem) : Value :=
  (Value.fresh type .uniform).set type.storage 0 x

namespace Argument

/-- The space to transform from: none for the current one. -/
def foreignSpace? (space : Option String) : Option String :=
  space.filter fun s => s != "" && s != "current"

/-- The matrix from the space to the current one, for types that have a place in space. -/
def spaceMatrix? {ε : Type} [Environment ε] (env : ε) (type : ValueType)
    (space : Option String) : Except String (Option (Mat4 Float32)) :=
  match type, foreignSpace? space with
  | .float, _ | .string, _ | .color, _ | _, none => .ok none
  | _, some name =>
    match Environment.spaceMatrix? env name "current" with
    | some m => .ok (some m)
    | none => .error s!"unknown coordinate system '{name}'"

/-- A color given in a color space. -/
def rgb? (space : Option String) (c : Color Float32) : Except String (Color Float32) :=
  let name := (foreignSpace? space).getD "rgb"
  match ColorSpace.toRgb? name c with
  | some c => .ok c
  | none => .error s!"unknown color space '{name}'"

/-- One element from its components. -/
def element (type : ValueType) (space : Option String) (m? : Option (Mat4 Float32))
    (xs : List Float32) : Except String Value :=
  let triple : Triple Float32 := ⟨xs.getD 0 0, xs.getD 1 0, xs.getD 2 0⟩
  let moved (f : Mat4 Float32 → Triple Float32 → Triple Float32) : Triple Float32 :=
    m?.elim triple (f · triple)
  match type with
  | .float => .ok (.single .float (xs.getD 0 0))
  | .point => .ok (.single .point (moved Mat4.transformPoint))
  | .vector => .ok (.single .vector (moved Mat4.transformVector))
  | .normal => .ok (.single .normal (moved Mat4.transformNormal))
  | .color => do return .single .color (← rgb? space (.ofTriple triple))
  | .matrix =>
    let m := (Mat4.ofList? xs).getD .identity
    .ok (.single .matrix (m?.elim m (m * ·)))
  | .string => .ok (.fresh .string .uniform)

/-- The elements of an argument for a parameter of that type. -/
def elements {ε : Type} [Environment ε] (env : ε) (type : ValueType) (space : Option String) :
    Argument → Except String (List Value)
  | strings xs =>
    if type = .string then .ok (xs.map (.single .string))
    else .error s!"expected {type.keyword} values, got strings"
  | floats xs => do
    if type = .string then throw "expected string values"
    let count := type.floatCount
    if xs.length < count then
      throw s!"{type.keyword} needs {count} values, got {xs.length}"
    let m? ← spaceMatrix? env type space
    (completePieces count xs).mapM (element type space m?)

/-- Assigns at every point. -/
def storeIn (name : String) (v : Variable) (source : Value) : Except ExecError Variable :=
  match v.assign source (.full v.size) with
  | .ok v => .ok v
  | .error e => .error (.badArgument name e.message)

/-- A single element goes into every element of an array; of several, each goes into its own, and
array elements without one stay. -/
def storeInArray (name : String) (a : VariableArray) (first : Value) (rest : List Value) :
    Except ExecError VariableArray := do
  let source? (k : Nat) : Option Value := if rest.isEmpty then some first else (first :: rest)[k]?
  let elements ← a.elements.toList.zipIdx.mapM fun p =>
    match source? p.2 with
    | some source => storeIn name p.1 source
    | none => .ok p.1
  return { a with elements := elements.toArray }

end Argument

/-- Sets a parameter, or reports why it cannot be set and changes nothing. -/
def Machine.setArgument {ε : Type} [Environment ε] (m : Machine) (env : ε) (name : String)
    (arg : Argument) (space : Option String) : Except ExecError Machine := do
  let some k := m.program.localIndex? name | throw (.unknownArgument name)
  let some declaration := m.program.locals[k]? | throw (.unknownLocal k)
  match arg.elements env declaration.type space with
  | .error reason => throw (.badArgument name reason)
  | .ok [] => throw (.badArgument name "no values")
  | .ok (first :: rest) =>
    match m.locals[k]? with
    | some (.scalar v) =>
      return { m with
        locals := m.locals.setIfInBounds k (.scalar (← Argument.storeIn name v first)) }
    | some (.array a) =>
      return { m with
        locals := m.locals.setIfInBounds k (.array (← Argument.storeInArray name a first rest)) }
    | none => throw (.unknownLocal k)

end ShadingMachine
