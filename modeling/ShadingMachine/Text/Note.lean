/-! Notes about the course of a computation, by importance. -/
namespace ShadingMachine.Text

inductive Level where
  | error
  | warn
  | info
  | debug
  | trace
deriving DecidableEq, Inhabited

def Level.word : Level → String
  | .error => "ERROR"
  | .warn => "WARN"
  | .info => "INFO"
  | .debug => "DEBUG"
  | .trace => "TRACE"

/-- From the most to the least important. -/
def Level.rank : Level → Nat
  | .error => 0
  | .warn => 1
  | .info => 2
  | .debug => 3
  | .trace => 4

structure Note where
  level : Level
  text : String
deriving DecidableEq, Inhabited

/-- Notes in the order in which they were made. -/
abbrev Log := Array Note

end ShadingMachine.Text
