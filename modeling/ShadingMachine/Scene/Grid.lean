import ShadingMachine.Formula.Arithmetic
import ShadingMachine.Machine.Environment
import ShadingMachine.Scene.GraphicsState
import ShadingMachine.Scene.Light
import ShadingMachine.Scene.Noise
import ShadingMachine.Scene.Resolution
import ShadingMachine.Scene.Spaces

/-! A flat patch in front of the eye, with lights of its own. The patch lies at distance one and
faces the eye; `u` runs to the right and `v` down. Everything that a shader can ask for is
answered. -/
namespace ShadingMachine

structure Grid where
  resolution : Resolution
  graphics : GraphicsState
  states : RunningStates
  spaces : Spaces Float32
  attributes : List (String × Variable)
  options : List (String × Variable)
  /-- Maps of one color. -/
  textures : List (String × Color Float32)
  lights : Array Light
  /-- The lights of the current loop, and the place of the one that it is at. -/
  collected : List Nat
  cursor : Nat
  near : Float32
  far : Float32
  seed : UInt64
  output : Array String
  errors : Array String

namespace Grid

/-- The place of a point of the patch from zero to one. -/
def patchPlace (steps k : Nat) : Float32 :=
  if steps = 0 then 0 else Float32.ofNat k * (1 / Float32.ofNat steps)

/-- The distance between neighbours, which is one if there are none. -/
def patchStep (steps : Nat) : Float32 := if steps = 0 then 1 else 1 / Float32.ofNat steps

/-- The graphics state of the patch. -/
def patch (r : Resolution) : GraphicsState :=
  let n := r.pointCount
  let u (i : Nat) : Float32 := patchPlace r.u (r.coordinate i .alongU)
  let v (i : Nat) : Float32 := patchPlace r.v (r.coordinate i .alongV)
  let place (i : Nat) : Triple Float32 := ⟨u i - 1 / 2, 1 / 2 - v i, 1⟩
  .ofFn fun x =>
    let fill (s : Storage) (f : Nat → s.Elem) : Variable :=
      ((Variable.fresh x.name x.type x.detail).sizeTo n).mapValue (·.write s (.full n) f)
    match x with
    | .u | .s => fill .float u
    | .v | .t => fill .float v
    | .position | .lightedPosition | .incident => fill .triple place
    | .uTangent => fill .triple fun _ => ⟨1, 0, 0⟩
    | .vTangent => fill .triple fun _ => ⟨0, -1, 0⟩
    | .normal | .geometricNormal | .lightedNormal => fill .triple fun _ => ⟨0, 0, -1⟩
    | .surfaceColor | .surfaceOpacity => fill .color fun _ => .white
    | .alpha => fill .float fun _ => 1
    | .uStep => fill .float fun _ => patchStep r.u
    | .vStep => fill .float fun _ => patchStep r.v
    | .componentCount => fill .float fun _ => 3
    | .lightVector | .lightColor | .lightOpacity | .outputColor | .outputOpacity | .eye | .time =>
      (Variable.fresh x.name x.type x.detail).sizeTo n

/-- A patch without lights. -/
def fresh (u v : Nat) : Grid where
  resolution := ⟨u, v⟩
  graphics := patch ⟨u, v⟩
  states := .fresh (Resolution.pointCount ⟨u, v⟩)
  spaces := .standard
  attributes := []
  options := []
  textures := []
  lights := #[]
  collected := []
  cursor := 0
  near := 0
  far := 1
  seed := 0x853c49e6748fea9b
  output := #[]
  errors := #[]

def modifyGraphics (g : Grid) (x : GraphicsVariable) (f : Value → Value) : Grid :=
  { g with graphics := g.graphics.modify x f }

/-! Reports and lines of text are kept as well as noted. -/

def report (text : String) : Serving Grid Unit := do
  note .error text
  modify fun h => { h with env := { h.env with errors := h.env.errors.push text } }

def print (text : String) : Serving Grid Unit := do
  note .info text
  modify fun h => { h with env := { h.env with output := h.env.output.push text } }

/-! Derivatives -/

/-- The elements of a varying value, if it has that storage. -/
def field? (v : Value) (s : Storage) : Option (Array s.Elem) :=
  if v.isVarying then v.data.as? s else none

/-- The derivative at a point; there is none by a value that is no varying float. -/
def slope? (r : Resolution) (kind : DerivativeKind) (divisor? : Option (Array Float32))
    (field : Array Float32) (i : Nat) : Option Float32 :=
  match kind with
  | .alongU => some (r.difference .alongU field i)
  | .alongV => some (r.difference .alongV field i)
  | .byValue => divisor?.map fun divisor => r.quotient field divisor i

/-- The derivative of a field component by component, unless it is one of strings or
matrices. -/
def derivative? (r : Resolution) (kind : DerivativeKind) (divisor? : Option (Array Float32)) :
    (s : Storage) → Array s.Elem → Option (Nat → Option s.Elem)
  | .float, xs => some (slope? r kind divisor? xs)
  | .triple, xs =>
    let slope := [xs.map (·.x), xs.map (·.y), xs.map (·.z)].map (slope? r kind divisor?)
    some fun i => do
      let [x, y, z] ← slope.mapM (· i) | none
      return ⟨x, y, z⟩
  | .color, xs =>
    let slope := [xs.map (·.r), xs.map (·.g), xs.map (·.b)].map (slope? r kind divisor?)
    some fun i => do
      let [x, y, z] ← slope.mapM (· i) | none
      return ⟨x, y, z⟩
  | .string, _ | .matrix, _ => none

/-- Zero for what does not vary. -/
def derivative (kind : DerivativeKind) (v : Value) (divisor? : Option Value) (out : Value)
    (mask : Mask) : Serving Grid Value := do
  let r := (← get).env.resolution
  let cleared := out.clear mask
  match derivative? r kind (divisor?.bind (field? · .float)) v.data.storage v.data.values with
  | none =>
    report s!"cannot differentiate {v.type.keyword} value"
    return cleared
  | some f =>
    if !v.isVarying then return cleared
    return mask.ones.foldl (fun out i => (f i).elim out (out.set v.data.storage i)) cleared

/-- The cross product of the differences along `u` and `v`. -/
def calculateNormal (g : Grid) (p out : Value) (mask : Mask) : Value :=
  match field? p .triple with
  | some ps =>
    out.write .triple mask fun i =>
      (g.resolution.tripleDifference .alongU ps i).cross
        (g.resolution.tripleDifference .alongV ps i)
  | none => out.clear mask

/-- The area of the cell at a point. -/
def area (g : Grid) (p out : Value) (mask : Mask) : Value :=
  let step (x : GraphicsVariable) : Float32 := (g.graphics.get x).getFloat 0
  match field? p .triple with
  | some ps =>
    out.write .float mask fun i =>
      (((g.resolution.tripleDifference .alongU ps i).scale (step .uStep)).cross
        ((g.resolution.tripleDifference .alongV ps i).scale (step .vStep))).length
  | none => out.clear mask

/-- The third coordinate, as a share of the way from the near to the far plane. -/
def depth (g : Grid) (p out : Value) (mask : Mask) : Value :=
  let range := if g.far != g.near then g.far - g.near else 1
  out.write .float mask fun i => ((p.getTriple i).z - g.near) / range

/-! Noise and chance -/

/-- The coordinates of all operands at a point, one after the other. -/
def coordinates (args : List Value) (i : Nat) : List Float32 :=
  args.flatMap fun v =>
    if v.data.storage = .triple then (v.getTriple i).toList else [v.getFloat i]

def noise (cells : Bool) (args : List Value) (out : Value) (mask : Mask) : Value :=
  let channel (i k : Nat) : Float32 :=
    (if cells then Noise.cell else Noise.smooth) (coordinates args i) k
  match out.data.storage with
  | .float => out.write .float mask (channel · 0)
  | .color => out.write .color mask fun i => ⟨channel i 0, channel i 1, channel i 2⟩
  | _ => out.write .triple mask fun i => ⟨channel i 0, channel i 1, channel i 2⟩

/-- The next number from zero to less than one. -/
def draw : StateM UInt64 Float32 := do
  let seed := (← get) * 6364136223846793005 + 1442695040888963407
  set seed
  return Float32.ofNat (seed >>> 40).toNat / 16777216

/-- The storage of what is drawn for a result: what is no number or color is taken for a triple. -/
def drawnStorage : Storage → Storage
  | .float => .float
  | .color => .color
  | .triple | .string | .matrix => .triple

def drawElement : (s : Storage) → StateM UInt64 (drawnStorage s).Elem
  | .float => draw
  | .color => return ⟨← draw, ← draw, ← draw⟩
  | .triple | .string | .matrix => return ⟨← draw, ← draw, ← draw⟩

/-- Where what is drawn does not fit the result, the result is left alone. -/
def drawAt (out : Value) (points : List Nat) : StateM UInt64 Value :=
  points.foldlM (fun out i => do
    return out.set (drawnStorage out.data.storage) i (← drawElement out.data.storage)) out

def random (out : Value) (mask : Mask) : Serving Grid Value :=
  modifyGet fun h =>
    let (v, seed) := (drawAt out (out.points mask)).run h.env.seed
    (v, { h with env := { h.env with seed } })

/-! Lights -/

def ambient (g : Grid) (out : Value) (mask : Mask) : Value :=
  let add (sum : Color Float32) (l : Light) : Color Float32 := sum + l.color.scale l.intensity
  let total := (g.lights.filter (·.isAmbient)).foldl add .black
  out.write .color mask fun _ => total

/-- The sum over the lights that shine on a point, of a term in the direction to the light and
in its color. -/
def litSum (g : Grid) (i : Nat) (term : Triple Float32 → Color Float32 → Color Float32) :
    Color Float32 :=
  let p := (g.graphics.get .position).getTriple i
  let add (sum : Color Float32) (l : Light) : Color Float32 :=
    sum + term (-l.incident p) (l.radiance (l.incident p))
  (g.lights.filter (!·.isAmbient)).foldl add .black

/-- Whether each operand has the storage that it must have. -/
def fits (args : List (Value × Storage)) : Bool := args.all fun p => p.1.data.storage == p.2

def diffuse (g : Grid) (n out : Value) (mask : Mask) : Value :=
  if !fits [(n, .triple)] then out.clear mask
  else
    out.write .color mask fun i =>
      let nn := (n.getTriple i).normalize
      g.litSum i fun l c => c.scale (Scalar.larger (nn.dot l.normalize) 0)

/-- By the direction halfway between light and viewer. -/
def specular (g : Grid) (n v roughness out : Value) (mask : Mask) : Value :=
  if !fits [(n, .triple), (v, .triple), (roughness, .float)] then out.clear mask
  else
    out.write .color mask fun i =>
      let nn := (n.getTriple i).normalize
      let vn := (v.getTriple i).normalize
      let exponent := 1 / Scalar.larger (roughness.getFloat i) 1e-6
      g.litSum i fun l c =>
        let h := (l.normalize + vn).normalize
        c.scale ((Scalar.larger (nn.dot h) 0).pow exponent)

/-- By the direction of the viewer thrown back. -/
def phong (g : Grid) (n v size out : Value) (mask : Mask) : Value :=
  if !fits [(n, .triple), (v, .triple), (size, .float)] then out.clear mask
  else
    out.write .color mask fun i =>
      let nn := (n.getTriple i).normalize
      let incident := -(v.getTriple i).normalize
      let r := incident - nn.scale (2 * nn.dot incident)
      let exponent := size.getFloat i
      g.litSum i fun l c => c.scale ((Scalar.larger (r.dot l.normalize) 0).pow exponent)

/-- Whether a direction is within the angle of an axis. -/
def insideCone (axis : Triple Float32) (angle : Float32) (l : Triple Float32) : Bool :=
  if Formula.pi ≤ angle then true else angle.cos ≤ axis.normalize.dot l.normalize

def collectLights (category : Option String) (g : Grid) : Grid :=
  let wanted (k : Nat) : Bool :=
    (g.lights[k]?.map fun l => !l.isAmbient && (category.map l.matchesFilter).getD true).getD false
  { g with collected := (List.range g.lights.size).filter wanted, cursor := 0 }

/-- The light that the loop is at. -/
def currentLight? (g : Grid) : Option Light := do g.lights[← g.collected[g.cursor]?]?

def firstLight : Serving Grid Bool :=
  modifyGet fun h => (!h.env.collected.isEmpty, { h with env := { h.env with cursor := 0 } })

def nextLight : Serving Grid Bool :=
  modifyGet fun h =>
    let cursor := h.env.cursor + 1
    (cursor < h.env.collected.length, { h with env := { h.env with cursor } })

def modifyEnv (f : Grid → Grid) : Serving Grid Unit := modify fun h => { h with env := f h.env }

/-- The current light at the running points, where it falls into the cone. -/
def illuminance (p axis angle out : Value) (mask : Mask) : Serving Grid Value := do
  match (← get).env.currentLight? with
  | none => return out.clear mask
  | some light =>
    let incident (i : Nat) : Triple Float32 := light.incident (p.getTriple i)
    modifyEnv (·.modifyGraphics .lightVector (·.write .triple mask fun i => -incident i))
    modifyEnv (·.modifyGraphics .lightColor (·.write .color mask fun i =>
      light.radiance (incident i)))
    return out.write .float mask fun i =>
      Scalar.ofBool (insideCone (axis.getTriple i) (angle.getFloat i) (-incident i))

/-- Light from a place towards the points. -/
def illuminate (p : Value) (axis? angle? : Option Value) (out : Value) (mask : Mask) :
    Serving Grid Value := do
  let lighted := ((← get).env.graphics.get .lightedPosition).toValue
  let l (i : Nat) : Triple Float32 := lighted.getTriple i - p.getTriple i
  modifyEnv (·.modifyGraphics .lightVector (·.write .triple mask l))
  return out.write .float mask fun i =>
    match axis?, angle? with
    | some axis, some angle =>
      Scalar.ofBool (insideCone (axis.getTriple i) (angle.getFloat i) (l i))
    | _, _ => 1

/-- Parallel light. -/
def solar (axis? : Option Value) (out : Value) (mask : Mask) : Serving Grid Value := do
  if let some axis := axis? then
    modifyEnv (·.modifyGraphics .lightVector (·.write .triple mask axis.getTriple))
  return out.write .float mask fun _ => 1

/-! Maps, attributes and options -/

/-- A map has one color. A missing shadow map casts no shadow, and another one is reported. -/
def texture (kind : TextureKind) (name channel : Value) (out : Value) (mask : Mask) :
    Serving Grid Value := do
  let name := name.getString 0
  match (← get).env.textures.lookup name with
  | none =>
    if kind ≠ .shadow then report s!"texture '{name}' not found"
    return out.clear mask
  | some map =>
    if out.data.storage = .color then return out.write .color mask fun _ => map
    return out.write .float mask fun _ => map.get (Scalar.toIndex (channel.getFloat 0))

/-- The variable with the value found under a name, if there is one that fits. -/
def find? (values : List (String × Variable)) (name : String) (v : Variable) : Option Variable := do
  let source ← values.lookup name
  (v.assign source.toValue (.full v.size)).toOption

instance : Environment Grid where
  uResolution g := g.resolution.u
  vResolution g := g.resolution.v
  graphics? g x := some (g.graphics.get x)
  setVariable g x v := { g with graphics := g.graphics.set x v }
  states g := g.states
  setStates g states := { g with states }
  spaceMatrix? g source target := g.spaces.matrix? source target
  report := report
  print := print
  derivative := derivative
  noise cells args out mask := return noise cells args out mask
  random := random
  depth p out mask := return (← get).env.depth p out mask
  calculateNormal p out mask := return (← get).env.calculateNormal p out mask
  area p out mask := return (← get).env.area p out mask
  ambient out mask := return (← get).env.ambient out mask
  diffuse n out mask := return (← get).env.diffuse n out mask
  specular n v roughness out mask := return (← get).env.specular n v roughness out mask
  phong n v size out mask := return (← get).env.phong n v size out mask
  texture kind name channel _ out mask := texture kind name channel out mask
  attribute? name v := return find? (← get).env.attributes name v
  option? name v := return find? (← get).env.options name v
  forgetLights := modifyEnv fun g => { g with collected := [], cursor := 0 }
  collectLights category := modifyEnv (collectLights category)
  firstLight := firstLight
  nextLight := nextLight
  illuminance _ p axis angle out mask := illuminance p axis angle out mask
  illuminate p axis angle out mask := illuminate p axis angle out mask
  solar axis _ out mask := solar axis out mask

theorem environment_states (g : Grid) : Environment.states g = g.states := rfl

theorem pointCount_eq (g : Grid) : Environment.pointCount g = g.resolution.pointCount := rfl

theorem pointCount_pos (g : Grid) : 0 < Environment.pointCount g :=
  Nat.mul_pos (Nat.succ_pos _) (Nat.succ_pos _)

end Grid

end ShadingMachine
