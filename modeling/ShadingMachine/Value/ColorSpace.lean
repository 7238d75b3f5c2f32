import ShadingMachine.Value.Triple

/-! Colors in other systems than red, green and blue. -/
namespace ShadingMachine.ColorSpace

section
variable {α : Type} [Scalar α]

def largest (c : Color α) : α := Scalar.larger (Scalar.larger c.r c.g) c.b

def smallest (c : Color α) : α := Scalar.smaller (Scalar.smaller c.r c.g) c.b

/-- The hue from zero to one, of a color with the given largest channel and spread. -/
def hue (c : Color α) (max delta : α) : α :=
  if delta == 0 then 0
  else
    let h :=
      if max == c.r then (c.g - c.b) / delta
      else if max == c.g then 2 + (c.b - c.r) / delta
      else 4 + (c.r - c.g) / delta
    let h := h / 6
    if h < 0 then h + 1 else h

/-- Hue, saturation and value. -/
def hsvOfRgb (c : Color α) : Color α :=
  let max := largest c
  let delta := max - smallest c
  ⟨hue c max delta, if 0 < max then delta / max else 0, max⟩

def rgbOfHsv (c : Color α) : Color α :=
  let s := c.g
  let v := c.b
  if s ≤ 0 then .splat v
  else
    let h := (c.r - Scalar.floor c.r) * 6
    let sector := Scalar.floor h
    let f := h - sector
    let p := v * (1 - s)
    let q := v * (1 - s * f)
    let t := v * (1 - s * (1 - f))
    match Scalar.truncate sector with
    | 0 => ⟨v, t, p⟩
    | 1 => ⟨q, v, p⟩
    | 2 => ⟨p, v, t⟩
    | 3 => ⟨p, q, v⟩
    | 4 => ⟨t, p, v⟩
    | _ => ⟨v, p, q⟩

/-- Hue, saturation and lightness. -/
def hslOfRgb (c : Color α) : Color α :=
  let max := largest c
  let min := smallest c
  let delta := max - min
  let l := (max + min) * (1 / 2)
  let s :=
    if delta == 0 then 0
    else if l ≤ 1 / 2 then delta / (max + min)
    else delta / (2 - max - min)
  ⟨hue c max delta, s, l⟩

/-- A channel from the two lightness bounds and the hue turned to that channel. -/
def hslChannel (m₁ m₂ h : α) : α :=
  let h := h - Scalar.floor h
  if h < 1 / 6 then m₁ + (m₂ - m₁) * h * 6
  else if h < 1 / 2 then m₂
  else if h < 2 / 3 then m₁ + (m₂ - m₁) * (2 / 3 - h) * 6
  else m₁

def rgbOfHsl (c : Color α) : Color α :=
  let h := c.r
  let s := c.g
  let l := c.b
  if s ≤ 0 then .splat l
  else
    let m₂ := if l ≤ 1 / 2 then l * (1 + s) else l + s - l * s
    let m₁ := 2 * l - m₂
    ⟨hslChannel m₁ m₂ (h + 1 / 3), hslChannel m₁ m₂ h, hslChannel m₁ m₂ (h - 1 / 3)⟩

end

/-- The rows of a three by three matrix. -/
structure Rows where
  first : Color Float32
  second : Color Float32
  third : Color Float32

def Rows.apply (m : Rows) (c : Color Float32) : Color Float32 :=
  let row (r : Color Float32) : Float32 := r.r * c.r + r.g * c.g + r.b * c.b
  ⟨row m.first, row m.second, row m.third⟩

def xyzOfRgb : Rows :=
  ⟨⟨0.412453, 0.357580, 0.180423⟩, ⟨0.212671, 0.715160, 0.072169⟩, ⟨0.019334, 0.119193, 0.950227⟩⟩

def rgbOfXyz : Rows :=
  ⟨⟨3.240479, -1.537150, -0.498535⟩, ⟨-0.969256, 1.875992, 0.041556⟩,
    ⟨0.055648, -0.204043, 1.057311⟩⟩

def yiqOfRgb : Rows :=
  ⟨⟨0.299, 0.587, 0.114⟩, ⟨0.596, -0.275, -0.321⟩, ⟨0.212, -0.523, 0.311⟩⟩

def rgbOfYiq : Rows :=
  ⟨⟨1.0, 0.956, 0.621⟩, ⟨1.0, -0.272, -0.647⟩, ⟨1.0, -1.105, 1.702⟩⟩

/-- From the named system to red, green and blue. -/
def toRgb? (space : String) (c : Color Float32) : Option (Color Float32) :=
  if space = "rgb" ∨ space = "" then some c
  else if space = "hsv" then some (rgbOfHsv c)
  else if space = "hsl" then some (rgbOfHsl c)
  else if space = "xyz" ∨ space = "XYZ" then some (rgbOfXyz.apply c)
  else if space = "yiq" ∨ space = "YIQ" then some (rgbOfYiq.apply c)
  else none

/-- From red, green and blue to the named system. -/
def ofRgb? (space : String) (c : Color Float32) : Option (Color Float32) :=
  if space = "rgb" ∨ space = "" then some c
  else if space = "hsv" then some (hsvOfRgb c)
  else if space = "hsl" then some (hslOfRgb c)
  else if space = "xyz" ∨ space = "XYZ" then some (xyzOfRgb.apply c)
  else if space = "yiq" ∨ space = "YIQ" then some (yiqOfRgb.apply c)
  else none

end ShadingMachine.ColorSpace
