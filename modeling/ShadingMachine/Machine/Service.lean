import ShadingMachine.Machine.Access
import ShadingMachine.Machine.Elementwise
import ShadingMachine.Program.Opcode
import ShadingMachine.Value.ColorSpace

/-! Operations that the environment answers. Results that depend on the grid, on lights, on
textures or on chance always vary; the others vary if an operand does. -/
namespace ShadingMachine

/-- A point, a vector or a normal through a matrix, each in its own way. -/
def Mat4.carry {α : Type} [Scalar α] (m : Mat4 α) (type : ValueType) (u : Triple α) : Triple α :=
  match type with
  | .vector => m.transformVector u
  | .normal => m.transformNormal u
  | _ => m.transformPoint u

namespace Exec

variable {ε : Type}

/-- Fills with a function of the last operand only. -/
def onLast (i : Instruction) (f : Elementwise) : Filling ε := fun args out mask =>
  return f.fill i.name (args.drop (args.length - 1)) out mask

/-- The strings that name where to transform from and to. -/
def spaceNames (origin : String) (between : Bool) (args : List Value) : String × String :=
  let name (k : Nat) : String := (args[k]?.map (·.getString 0)).getD ""
  if between then (name 0, name 1) else (origin, name 0)

variable [Environment ε]

/-- An unknown space is reported, and the value stays as it is. -/
def transform (i : Instruction) (type : ValueType) (between : Bool) : Exec ε Unit := do
  let slots ← pop i (if between then 3 else 2)
  let (source, target) := spaceNames "current" between (← values slots)
  let m? := Environment.spaceMatrix? (← environment) source target
  if m?.isNone then
    serve (Environment.report s!"{i.name}: cannot transform from '{source}' to '{target}'")
  let apply (u : Triple Float32) : Triple Float32 :=
    match m? with
    | some m => m.carry type u
    | none => u
  produce type slots (onLast i ⟨type, [.triple], .triple, apply⟩)

/-- An unknown color space is reported, and the color stays as it is. -/
def transformColor (i : Instruction) (between : Bool) : Exec ε Unit := do
  let slots ← pop i (if between then 3 else 2)
  let (source, target) := spaceNames "rgb" between (← values slots)
  let convert? (c : Color Float32) : Option (Color Float32) := do
    ColorSpace.ofRgb? target (← ColorSpace.toRgb? source c)
  if (convert? .black).isNone then
    serve (Environment.report s!"{i.name}: unknown color space '{source}' or '{target}'")
  produce .color slots (onLast i ⟨.color, [.color], .color, fun c => (convert? c).getD c⟩)

/-- An attribute or option by its name. Its value goes into the variable of the operand, and
whether there is one is pushed. -/
def query (i : Instruction)
    (ask : String → Variable → Serving ε (Option Variable)) : Exec ε Unit := do
  let r ← ofExcept i.variableRef
  let name := (← popValue i).getString 0
  let dest ← readVariable r
  let fresh := (Variable.fresh name dest.type dest.detail).sizeTo (← machine).gridSize
  let found ← serve (ask name fresh)
  if let some v := found then assign i r v.toValue
  pushTruth found.isSome

/-- Name of the map, channel and coordinates. -/
def lookUp (i : Instruction) (kind : TextureKind) (type : ValueType) (arity : Nat) :
    Exec ε Unit := do
  produceAs type .varying (← pop i arity) <| asked fun args out mask =>
    match args with
    | name :: channel :: coordinates =>
      Environment.texture kind name channel coordinates out mask
    | _ => return out

/-- A service with a result of its own and no operand, one, two or three. -/
def service₀ (type : ValueType) (ask : Value → Mask → Serving ε Value) : Exec ε Unit :=
  produceAs type .varying [] (asked fun _ => ask)

def service₁ (i : Instruction) (type : ValueType) (varying : Bool)
    (ask : Value → Value → Mask → Serving ε Value) : Exec ε Unit := do
  let slots ← pop i 1
  let detail := if varying then .varying else Detail.joinAll (slots.map (·.detail))
  produceAs type detail slots <| asked fun args out mask =>
    match args with
    | [x] => ask x out mask
    | _ => return out

def service₂ (i : Instruction) (type : ValueType)
    (ask : Value → Value → Value → Mask → Serving ε Value) : Exec ε Unit := do
  produceAs type .varying (← pop i 2) <| asked fun args out mask =>
    match args with
    | [x, y] => ask x y out mask
    | _ => return out

def service₃ (i : Instruction) (type : ValueType)
    (ask : Value → Value → Value → Value → Mask → Serving ε Value) : Exec ε Unit := do
  produceAs type .varying (← pop i 3) <| asked fun args out mask =>
    match args with
    | [x, y, z] => ask x y z out mask
    | _ => return out

/-- In an even number of dimensions the last coordinate is an operand of its own. -/
def noise (i : Instruction) (cells : Bool) (type : ValueType) (dimensions : Nat) :
    Exec ε Unit := do
  produce type (← pop i (if dimensions % 2 = 0 then 2 else 1)) (asked (Environment.noise cells))

def service (i : Instruction) : Service → Exec ε Unit
  | .transform type between => transform i type between
  | .transformColor between => transformColor i between
  | .depth => service₁ i .float false Environment.depth
  | .calculateNormal => service₁ i .normal false Environment.calculateNormal
  | .area => service₁ i .float false Environment.area
  | .alongU type => service₁ i type true fun x => Environment.derivative .alongU x none
  | .alongV type => service₁ i type true fun x => Environment.derivative .alongV x none
  | .derivative type =>
    service₂ i type fun x y => Environment.derivative .byValue x (some y)
  | .random type => service₀ type Environment.random
  | .noise type dimensions => noise i false type dimensions
  | .cellNoise type dimensions => noise i true type dimensions
  | .ambient => service₀ .color Environment.ambient
  | .diffuse => service₁ i .color true Environment.diffuse
  | .specular => service₃ i .color Environment.specular
  | .phong => service₃ i .color Environment.phong
  | .texture type coordinates => lookUp i .texture type (if coordinates then 4 else 2)
  | .surroundings type => lookUp i .surroundings type 3
  | .shadow => lookUp i .shadow .float 3
  | .trace => service₂ i .color Environment.trace
  | .attribute => query i Environment.attribute?
  | .option => query i Environment.option?

/-- Starts a loop over the lights that pass the filter. -/
def startIlluminance (category : Option String) : Exec ε Unit := do
  serve (Environment.collectLights category)
  pushTruth (← serve Environment.firstLight)

def illumination (i : Instruction) : Illumination → Exec ε Unit
  | .start => startIlluminance none
  | .startCategory => do startIlluminance (some ((← popValue i).getString 0))
  | .advance => do pushTruth (← serve Environment.nextLight)
  | .illuminance => service₃ i .float (Environment.illuminance none)
  | .illuminanceCategory => do
    produceAs .float .varying (← pop i 4) <| asked fun args out mask =>
      match args with
      | [category, p, axis, angle] =>
        Environment.illuminance (some (category.getString 0)) p axis angle out mask
      | _ => return out
  | .illuminate =>
    service₃ i .float fun p axis angle => Environment.illuminate p (some axis) (some angle)
  | .illuminateAll => service₁ i .float true fun p => Environment.illuminate p none none
  | .solar => service₂ i .float fun axis angle => Environment.solar (some axis) (some angle)
  | .solarAll => service₀ .float (Environment.solar none none)

end Exec

end ShadingMachine
