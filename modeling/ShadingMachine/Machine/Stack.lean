import ShadingMachine.Machine.Instruction
import ShadingMachine.Machine.State

/-! Operands are taken from the stack and results put on it. The slot of a result is taken
before those of its operands are given back. -/
namespace ShadingMachine.Exec

variable {ε : Type}

def release (slots : List Slot) : Exec ε Unit :=
  modifyMachine fun m => { m with pools := m.pools.releaseAll slots }

/-- Takes the top `n` operands, in the order in which they were pushed. -/
def pop (i : Instruction) (n : Nat) : Exec ε (List Slot) := do
  let stack := (← machine).stack
  if stack.length < n then throw i.underflow
  modifyMachine fun m => { m with stack := m.stack.drop n }
  return (stack.take n).reverse

def popOne (i : Instruction) : Exec ε Slot := do
  match (← machine).stack with
  | [] => throw i.underflow
  | slot :: stack =>
    modifyMachine fun m => { m with stack }
    return slot

def value (slot : Slot) : Exec ε Value := return (← machine).pools.value slot

def values (slots : List Slot) : Exec ε (List Value) :=
  return slots.map (← machine).pools.value

/-- Takes a value and gives its slot back. -/
def popValue (i : Instruction) : Exec ε Value := do
  let slot ← popOne i
  let v ← value slot
  release [slot]
  return v

/-- Takes the number of operands that follow; there must be as many. -/
def popCount (i : Instruction) : Exec ε Nat := do
  let v ← popValue i
  if v.data.storage ≠ .float then throw (.operandType i.name .float v.type)
  let n := Scalar.toIndex (v.getFloat 0)
  if (← machine).stack.length < n then throw i.underflow
  return n

/-- A slot for a result, with whatever it held before. -/
def allocate (type : ValueType) (detail : Detail) : Exec ε Slot :=
  modifyGet fun s =>
    let m := s.machine
    let (slot, pools) := m.pools.allocate type detail m.gridSize
    (slot, { s with machine := { m with pools } })

def store (slot : Slot) (d : Data) : Exec ε Unit :=
  modifyMachine fun m => { m with pools := m.pools.store slot d }

def push (slot : Slot) : Exec ε Unit :=
  modifyMachine fun m => { m with stack := slot :: m.stack }

def pushUniform (type : ValueType) (x : type.storage.Elem) : Exec ε Unit := do
  let slot ← allocate type .uniform
  let v ← value slot
  store slot (v.set type.storage 0 x).data
  push slot

def pushTruth (b : Bool) : Exec ε Unit := pushUniform .float (Scalar.ofBool b : Float32)

/-- Pushes elements as they are. -/
def pushData (type : ValueType) (detail : Detail) (d : Data) : Exec ε Unit := do
  let slot ← allocate type detail
  store slot d
  push slot

/-- Pushes a value, sized to the grid if it varies. -/
def pushCopy (v : Value) : Exec ε Unit := do
  let n := (← machine).gridSize
  pushData v.type v.detail (if v.isVarying && v.size != n then v.data.resize n else v.data)

/-- How a result is computed from the operands, the old result and the mask. -/
abbrev Filling (ε : Type) := List Value → Value → Mask → Serving ε (Except ExecError Value)

/-- The environment fills a result. -/
def asked (ask : List Value → Value → Mask → Serving ε Value) : Filling ε :=
  fun args out mask => return .ok (← ask args out mask)

/-- Takes over a result for the operands, which are given back. -/
def produceAs (type : ValueType) (detail : Detail) (args : List Slot) (fill : Filling ε) :
    Exec ε Unit := do
  let slot ← allocate type detail
  let filled ← serve (fill (← values args) (← value slot) (← machine).mask)
  match filled with
  | .ok v =>
    store slot v.data
    release args
    push slot
  | .error e =>
    release args
    release [slot]
    throw e

/-- The result varies if one of the operands does. -/
def produce (type : ValueType) (args : List Slot) (fill : Filling ε) : Exec ε Unit :=
  produceAs type (.joinAll (args.map (·.detail))) args fill

end ShadingMachine.Exec
