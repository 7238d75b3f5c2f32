import ShadingMachine.Machine.Stack

/-! Variables are read and written by instructions. A declared local belongs to the machine and
a variable of the graphics state to its environment. An assignment that does not fit is noted
and skipped. -/
namespace ShadingMachine

/-- The element that an index selects. -/
def VariableArray.place? (a : VariableArray) (index : Float32) : Except ExecError Nat :=
  let k := Scalar.truncate index
  if 0 ≤ k ∧ k < a.length then .ok k.toNat else .error (.arrayIndex a.name k a.length)

namespace Value

/-- The element of a value at a point takes the place of one's own there. -/
def copyPoint (v source : Value) (i : Nat) : Value :=
  v.set source.data.storage i (source.get source.data.storage i)

end Value

namespace VariableArray

/-- Reads at each point the element with that point's index, up to the first index that is
outside the array. -/
def gather (a : VariableArray) (index : Value) :
    List Nat → Value → Value × Except ExecError Unit
  | [], out => (out, .ok ())
  | i :: points, out =>
    match a.place? (index.getFloat i) with
    | .ok k =>
      let element := a.elements[k]?.map (·.toValue)
      a.gather index points (element.elim out (out.copyPoint · i))
    | .error e => (out, .error e)

/-- Writes at each point into the element with that point's index, up to the first index that
is outside the array. -/
def scatter (a : VariableArray) (index source : Value) :
    List Nat → VariableArray × Except ExecError Unit
  | [] => (a, .ok ())
  | i :: points =>
    match a.place? (index.getFloat i) with
    | .ok k =>
      let write (v : Variable) : Variable := v.mapValue (·.copyPoint source i)
      { a with elements := a.elements.modify k write }.scatter index source points
    | .error e => (a, .error e)

end VariableArray

namespace Exec

variable {ε : Type} [Environment ε]

/-- The scalar variable that an operand names. -/
def readVariable : VariableRef → Exec ε Variable
  | .declared k => do ofExcept ((← machine).locals.scalar? k)
  | .graphics name => do
    match Environment.graphics? (← environment) name with
    | some v => return v
    | none => throw (.missingGraphicsVariable name.name)

def writeVariable (r : VariableRef) (v : Variable) : Exec ε Unit :=
  match r with
  | .declared k =>
    modifyMachine fun m => { m with locals := m.locals.setIfInBounds k (.scalar v) }
  | .graphics name => modifyEnvironment fun e => Environment.setVariable e name v

/-- The array that an operand names. -/
def readArray : VariableRef → Exec ε (Nat × VariableArray)
  | .declared k => do return (k, ← ofExcept ((← machine).locals.array? k))
  | .graphics name => throw (.notAnArray name.name)

def writeArray (k : Nat) (a : VariableArray) : Exec ε Unit :=
  modifyMachine fun m => { m with locals := m.locals.setIfInBounds k (.array a) }

def warn (i : Instruction) (text : String) : Exec ε Unit :=
  serve (note .warn s!"{i.name}: {text}")

/-- Assigns at the running points. -/
def assign (i : Instruction) (r : VariableRef) (source : Value) : Exec ε Unit := do
  let v ← readVariable r
  match v.assign source (← machine).mask with
  | .ok v => writeVariable r v
  | .error e => warn i e.message

def pushVariable (i : Instruction) : Exec ε Unit := do
  pushCopy (← readVariable (← ofExcept i.variableRef)).toValue

def popVariable (i : Instruction) : Exec ε Unit := do
  let r ← ofExcept i.variableRef
  let slot ← popOne i
  let done ← attempt (do assign i r (← value slot))
  release [slot]
  ofExcept done

/-- A varying index reads at the running points, and a uniform one once for all. -/
def loadElement (r : VariableRef) (index : Value) : Exec ε Unit := do
  let (_, a) ← readArray r
  if index.isVarying then
    let slot ← allocate a.type .varying
    let (out, done) := a.gather index (← machine).mask.ones (← value slot)
    store slot out.data
    match done with
    | .ok () => push slot
    | .error e =>
      release [slot]
      throw e
  else
    let k ← ofExcept (a.place? (index.getFloat 0))
    if let some element := a.elements[k]? then pushCopy element.toValue

def pushElement (i : Instruction) : Exec ε Unit := do
  let r ← ofExcept i.variableRef
  let slot ← popOne i
  let done ← attempt (do loadElement r (← value slot))
  release [slot]
  ofExcept done

/-- A varying index writes at the running points, and only into a varying array. -/
def storeElement (i : Instruction) (r : VariableRef) (source index : Value) : Exec ε Unit := do
  let (n, a) ← readArray r
  let mask := (← machine).mask
  if !index.isVarying then
    let k ← ofExcept (a.place? (index.getFloat 0))
    if let some element := a.elements[k]? then
      match element.assign source mask with
      | .ok v => writeArray n { a with elements := a.elements.setIfInBounds k v }
      | .error e => warn i e.message
  else if a.type.storage ≠ source.type.storage then
    warn i s!"cannot assign {source.type.keyword} value to {a.type.keyword} array '{a.name}'"
  else if !a.detail.isVarying then
    warn i s!"varying index into uniform array '{a.name}'"
  else
    let (a, done) := a.scatter index source mask.ones
    writeArray n a
    ofExcept done

/-- The value was pushed before its index. -/
def popElement (i : Instruction) : Exec ε Unit := do
  let r ← ofExcept i.variableRef
  let slots ← pop i 2
  let done ← attempt do
    if let [source, index] ← values slots then storeElement i r source index
  release slots
  ofExcept done

end Exec

end ShadingMachine
