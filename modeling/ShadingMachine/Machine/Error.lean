import ShadingMachine.Value.Basic

/-! What stops a machine. -/
namespace ShadingMachine

inductive ExecError where
  | stackUnderflow (op : String) (position : Nat)
  | stackImbalance (segment : String) (depth : Nat)
  | poolImbalance (pool : String) (entry now : Nat)
  | stateUnderflow (op : String) (position : Nat)
  | unresolvedLabel (id position : Nat)
  | malformedElement (position : Nat) (expected found : String)
  | operandType (op : String) (expected : Storage) (found : ValueType)
  | positionOutOfRange (segment : String) (position length : Nat)
  | arrayIndex (name : String) (index : Int) (length : Nat)
  | arrayNeedsIndex (name : String)
  | notAnArray (name : String)
  | unknownLocal (index : Nat)
  | missingGraphicsVariable (name : String)
  | unknownArgument (name : String)
  | badArgument (name reason : String)
deriving DecidableEq, Inhabited

def ExecError.message : ExecError → String
  | stackUnderflow op position => s!"stack underflow in '{op}' at pc {position}"
  | stackImbalance segment depth =>
    s!"{depth} entries left on the stack at the end of the {segment} segment"
  | poolImbalance pool entry now =>
    s!"{pool} temporaries: {now} in use after execution, {entry} before"
  | stateUnderflow op position => s!"running-state stack underflow in '{op}' at pc {position}"
  | unresolvedLabel id position => s!"jump through unresolved label {id} at pc {position}"
  | malformedElement position expected found =>
    s!"malformed program at pc {position}: expected {expected}, found {found}"
  | operandType op expected found =>
    s!"'{op}' expects a {expected.name} operand, found {found.keyword}"
  | positionOutOfRange segment position length =>
    s!"pc {position} is outside the {segment} segment (length {length})"
  | arrayIndex name index length =>
    s!"index {index} is outside array '{name}' (length {length})"
  | arrayNeedsIndex name => s!"'{name}' is an array and needs an index"
  | notAnArray name => s!"'{name}' is not an array"
  | unknownLocal index => s!"local variable {index} does not exist"
  | missingGraphicsVariable name =>
    s!"standard variable {name} is not provided by the environment"
  | unknownArgument name => s!"shader has no parameter named '{name}'"
  | badArgument name reason => s!"argument '{name}': {reason}"

end ShadingMachine
