import ShadingMachine.Number.Scalar

/-! Noise over a lattice of whole numbers: gradient noise, which is smooth, and cell noise, which
is constant between lattice points. Both take any number of coordinates. -/
namespace ShadingMachine.Noise

/-- A permutation of the numbers below 256. -/
def permutation : Array Nat := #[
  151, 160, 137, 91, 90, 15, 131, 13, 201, 95, 96, 53, 194, 233, 7, 225, 140, 36, 103, 30,
  69, 142, 8, 99, 37, 240, 21, 10, 23, 190, 6, 148, 247, 120, 234, 75, 0, 26, 197, 62, 94,
  252, 219, 203, 117, 35, 11, 32, 57, 177, 33, 88, 237, 149, 56, 87, 174, 20, 125, 136, 171,
  168, 68, 175, 74, 165, 71, 134, 139, 48, 27, 166, 77, 146, 158, 231, 83, 111, 229, 122, 60,
  211, 133, 230, 220, 105, 92, 41, 55, 46, 245, 40, 244, 102, 143, 54, 65, 25, 63, 161, 1,
  216, 80, 73, 209, 76, 132, 187, 208, 89, 18, 169, 200, 196, 135, 130, 116, 188, 159, 86,
  164, 100, 109, 198, 173, 186, 3, 64, 52, 217, 226, 250, 124, 123, 5, 202, 38, 147, 118,
  126, 255, 82, 85, 212, 207, 206, 59, 227, 47, 16, 58, 17, 182, 189, 28, 42, 223, 183, 170,
  213, 119, 248, 152, 2, 44, 154, 163, 70, 221, 153, 101, 155, 167, 43, 172, 9, 129, 22, 39,
  253, 19, 98, 108, 110, 79, 113, 224, 232, 178, 185, 112, 104, 218, 246, 97, 228, 251, 34,
  242, 193, 238, 210, 144, 12, 191, 179, 162, 241, 81, 51, 145, 235, 249, 14, 239, 107, 49,
  192, 214, 31, 181, 199, 106, 157, 184, 84, 204, 176, 115, 121, 50, 45, 127, 4, 150, 254,
  138, 236, 205, 93, 222, 114, 67, 29, 24, 72, 243, 141, 128, 195, 78, 66, 215, 61, 156, 180]

/-- The number that a lattice coordinate is mapped to, by its last eight bits. -/
def hash (v : Int) : Nat := permutation.getD (v % 256).toNat 0

/-- The lattice coordinate at or below. -/
def cellOf (x : Float32) : Int := Number.floorWord x

section
variable {α : Type} [Scalar α]

/-- From zero to one, level up to the second derivative at both ends. -/
def fade (t : α) : α := t * t * t * (t * (t * 6 - 15) + 10)

def blend (t a b : α) : α := a + t * (b - a)

def gradient₁ (h : Nat) (x : α) : α := if h % 2 = 0 then x else -x

def gradient₂ (h : Nat) (x y : α) : α :=
  match h % 4 with
  | 0 => x + y
  | 1 => -x + y
  | 2 => x - y
  | _ => -x - y

def gradient₃ (h : Nat) (x y z : α) : α :=
  let k := h % 16
  let u := if k < 8 then x else y
  let v := if k < 4 then y else if k = 12 ∨ k = 14 then x else z
  (if h % 2 = 0 then u else -u) + (if h / 2 % 2 = 0 then v else -v)

end

def gradientNoise₁ (x : Float32) : Float32 :=
  let i := cellOf x
  let s := x - x.floor
  blend (fade s) (gradient₁ (hash i) s) (gradient₁ (hash (i + 1)) (s - 1))

def gradientNoise₂ (x y : Float32) : Float32 :=
  let i := cellOf x
  let j := cellOf y
  let s := x - x.floor
  let t := y - y.floor
  let corner (di dj : Nat) : Float32 :=
    gradient₂ (hash (hash (i + di) + j + dj)) (s - Float32.ofNat di) (t - Float32.ofNat dj)
  blend (fade t)
    (blend (fade s) (corner 0 0) (corner 1 0))
    (blend (fade s) (corner 0 1) (corner 1 1))

def gradientNoise₃ (x y z : Float32) : Float32 :=
  let i := cellOf x
  let j := cellOf y
  let k := cellOf z
  let r := x - x.floor
  let s := y - y.floor
  let t := z - z.floor
  let corner (di dj dk : Nat) : Float32 :=
    gradient₃ (hash (hash (hash (i + di) + j + dj) + k + dk))
      (r - Float32.ofNat di) (s - Float32.ofNat dj) (t - Float32.ofNat dk)
  let face (dk : Nat) : Float32 :=
    blend (fade s)
      (blend (fade r) (corner 0 0 dk) (corner 1 0 dk))
      (blend (fade r) (corner 0 1 dk) (corner 1 1 dk))
  blend (fade t) (face 0) (face 1)

/-- The fourth coordinate blends two slices of the other three, each shifted by its hash. -/
def gradientNoise₄ (x y z w : Float32) : Float32 :=
  let k := cellOf w
  let slice (cell : Int) : Float32 :=
    gradientNoise₃ (x + Float32.ofNat (hash cell) * 0.618) y z
  blend (fade (w - w.floor)) (slice k) (slice (k + 1))

/-- What the channels of a color or a point are shifted by. -/
def channelShift (channel : Nat) : Float32 :=
  match channel % 3 with
  | 0 => 0
  | 1 => 19.34
  | _ => 47.81

/-- Gradient noise from zero to one. -/
def smooth (coordinates : List Float32) (channel : Nat) : Float32 :=
  let shift := channelShift channel
  let n := match coordinates with
    | [] => gradientNoise₁ (0 + shift)
    | [x] => gradientNoise₁ (x + shift)
    | [x, y] => gradientNoise₂ (x + shift) (y + shift)
    | [x, y, z] => gradientNoise₃ (x + shift) (y + shift) (z + shift)
    | x :: y :: z :: w :: _ => gradientNoise₄ (x + shift) (y + shift) (z + shift) (w + shift)
  Scalar.toUnit (1 / 2 + 1 / 2 * n)

/-- Takes a lattice coordinate into a hash: its last eight bits, then those before them. -/
def mixCell (h : Nat) (cell : Int) : Nat := hash (hash (h + cell) + cell / 256)

/-- The hash of lattice coordinates, below 65536. -/
def cellHash (cells : List Int) (channel : Nat) : Nat :=
  let low := cells.foldl mixCell (hash (channel * 71))
  256 * hash (low + 113) + low

/-- Noise that is constant in each cell, from zero to less than one. -/
def cell (coordinates : List Float32) (channel : Nat) : Float32 :=
  Float32.ofNat (cellHash (coordinates.map cellOf) channel) / 65536

end ShadingMachine.Noise
