/-! What a machine asks of the engine that reads its patterns. -/
namespace ShadingMachine.Pattern

/-- An engine for patterns. A machine is built over one, and knows nothing else about patterns. -/
class Engine where
  /-- Whether texts match, for a pattern that can be read; and otherwise the reason why it cannot
  be read, if the engine tells. -/
  read : String → Except (Option String) (String → Bool)

namespace Engine

/-- What is reported of a pattern that cannot be read. -/
def complaint (text : String) (reason? : Option String) : String :=
  s!"match: bad pattern '{text}'" ++ reason?.elim "" (": " ++ ·)

/-- What is reported of a pattern, if anything is. -/
def complaint? (engine : Engine) (text : String) : Option String :=
  match engine.read text with
  | .ok _ => none
  | .error reason? => some (complaint text reason?)

/-- Whether a text matches a pattern. A pattern that cannot be read matches nothing. -/
def occurs (engine : Engine) (pattern subject : String) : Bool :=
  match engine.read pattern with
  | .ok found => found subject
  | .error _ => false

end Engine

end ShadingMachine.Pattern
