import ShadingMachine.Mask.Running
import ShadingMachine.Program.GraphicsVariable
import ShadingMachine.Text.Note
import ShadingMachine.Value.Variable

/-! What a machine runs in. An environment holds the graphics state of the grid and its running
points, knows the named coordinate systems, and answers what only a renderer can. A result is
handed over with its old contents and comes back filled at the points of the mask. What an
environment does not support is reported and answered with zeros. -/
namespace ShadingMachine

open Text (Level Log Note)

/-- An environment at work, with the notes made so far. -/
structure Host (ε : Type) where
  env : ε
  log : Log

abbrev Serving (ε : Type) := StateM (Host ε)

def Host.note {ε : Type} (h : Host ε) (level : Level) (text : String) : Host ε :=
  { h with log := h.log.push ⟨level, text⟩ }

@[simp] theorem Host.env_note {ε : Type} (h : Host ε) (level : Level) (text : String) :
    (h.note level text).env = h.env := rfl

def note {ε : Type} (level : Level) (text : String) : Serving ε Unit :=
  modify fun h => h.note level text

inductive DerivativeKind where
  | alongU
  | alongV
  /-- By another value. -/
  | byValue
deriving DecidableEq

inductive TextureKind where
  | texture
  | surroundings
  | shadow
deriving DecidableEq

/-- An environment owns the graphics variables and one stack of running states. Each of them is
read by one function and written by another: a variable that can be read is one that can be
written, and the states that are read are those that were written last. -/
class Environment (ε : Type) where
  /-- The grid has one more point than this in a row. -/
  uResolution : ε → Nat
  /-- The grid has one more row than this. -/
  vResolution : ε → Nat
  /-- The number of points of the grid. -/
  pointCount : ε → Nat := fun e => (uResolution e + 1) * (vResolution e + 1)
  graphics? : ε → GraphicsVariable → Option Variable
  setVariable : ε → GraphicsVariable → Variable → ε
  states : ε → RunningStates
  setStates : ε → RunningStates → ε
  states_setStates : ∀ e r, states (setStates e r) = r := by intros; rfl
  /-- From one named space to another; there is none if a name is unknown. -/
  spaceMatrix? : ε → String → String → Option (Mat4 Float32)
  report : String → Serving ε Unit := note .error
  print : String → Serving ε Unit := note .info
  unsupported : String → Value → Mask → Serving ε Value := fun what out mask => do
    report (what ++ " not supported by this environment")
    return out.clear mask
  derivative : DerivativeKind → Value → Option Value → Value → Mask → Serving ε Value :=
    fun _ _ _ => unsupported "derivatives"
  noise : Bool → List Value → Value → Mask → Serving ε Value := fun _ _ => unsupported "noise"
  random : Value → Mask → Serving ε Value := unsupported "random"
  depth : Value → Value → Mask → Serving ε Value := fun _ => unsupported "depth"
  calculateNormal : Value → Value → Mask → Serving ε Value :=
    fun _ => unsupported "calculatenormal"
  area : Value → Value → Mask → Serving ε Value := fun _ => unsupported "area"
  ambient : Value → Mask → Serving ε Value := unsupported "ambient"
  diffuse : Value → Value → Mask → Serving ε Value := fun _ => unsupported "diffuse"
  specular : Value → Value → Value → Value → Mask → Serving ε Value :=
    fun _ _ _ => unsupported "specular"
  phong : Value → Value → Value → Value → Mask → Serving ε Value :=
    fun _ _ _ => unsupported "phong"
  /-- Kind, name of the map, channel and coordinates. -/
  texture : TextureKind → Value → Value → List Value → Value → Mask → Serving ε Value :=
    fun _ _ _ _ => unsupported "texture lookups"
  trace : Value → Value → Value → Mask → Serving ε Value := fun _ _ => unsupported "trace"
  /-- The variable given with its value, if the name is known and its value fits. -/
  attribute? : String → Variable → Serving ε (Option Variable) := fun _ _ => return none
  option? : String → Variable → Serving ε (Option Variable) := fun _ _ => return none
  forgetLights : Serving ε Unit := return ()
  /-- Collects the lights of a loop, those of a category if one is given. -/
  collectLights : Option String → Serving ε Unit := fun _ => return ()
  /-- Goes to the first light and says whether there is one. -/
  firstLight : Serving ε Bool := return false
  nextLight : Serving ε Bool := return false
  /-- Category, surface point, axis and angle of the cone. -/
  illuminance : Option String → Value → Value → Value → Value → Mask → Serving ε Value :=
    fun _ _ _ _ => unsupported "illuminance"
  illuminate : Value → Option Value → Option Value → Value → Mask → Serving ε Value :=
    fun _ _ _ => unsupported "illuminate"
  solar : Option Value → Option Value → Value → Mask → Serving ε Value :=
    fun _ _ => unsupported "solar"

attribute [simp] Environment.states_setStates

end ShadingMachine
