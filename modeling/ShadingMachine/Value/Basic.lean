import ShadingMachine.Mask.Bits
import ShadingMachine.Value.Mat4

/-! Typed values over a grid: what a value's elements are, and data that holds one element
or one for every point. Data of one storage read as another gives the initial element, and
writes of another storage or outside the data change nothing. -/
namespace ShadingMachine

/-- How elements are stored. Points, vectors and normals share a storage. -/
inductive Storage where
  | float
  | string
  | triple
  | color
  | matrix
deriving DecidableEq, Inhabited

inductive ValueType where
  | float
  | string
  | point
  | vector
  | normal
  | color
  | matrix
deriving DecidableEq, Inhabited

/-- A uniform value is one element; a varying value has one for each point of the grid. -/
inductive Detail where
  | uniform
  | varying
deriving DecidableEq, Inhabited

namespace Storage

@[reducible] def Elem : Storage → Type
  | float => Float32
  | string => String
  | triple => Triple Float32
  | color => Color Float32
  | matrix => Mat4 Float32

/-- What new elements hold: zero, nothing, or for a matrix the identity. -/
def initial : (s : Storage) → s.Elem
  | float => (0 : Float32)
  | string => ""
  | triple => Triple.splat (0 : Float32)
  | color => Color.splat (0 : Float32)
  | matrix => (Mat4.identity : Mat4 Float32)

/-- What a service writes that has no answer: zeros. -/
def zero : (s : Storage) → s.Elem
  | float => (0 : Float32)
  | string => ""
  | triple => Triple.splat (0 : Float32)
  | color => Color.splat (0 : Float32)
  | matrix => Mat4.diagonal (0 : Float32)

instance (s : Storage) : Inhabited s.Elem := ⟨s.initial⟩

def name : Storage → String
  | float => "Float"
  | string => "String"
  | triple => "Triple"
  | color => "Color"
  | matrix => "Matrix"

/-- An element as text. -/
def text : (s : Storage) → s.Elem → String
  | float, x => Number.Layout.full.write x
  | string, x => x
  | triple, x => bracketed x.toList
  | color, x => bracketed x.toList
  | matrix, x => bracketed x.toList

end Storage

namespace ValueType

def all : List ValueType := [float, string, point, vector, normal, color, matrix]

theorem mem_all (t : ValueType) : t ∈ all := by cases t <;> decide

def keyword : ValueType → String
  | float => "float"
  | string => "string"
  | point => "point"
  | vector => "vector"
  | normal => "normal"
  | color => "color"
  | matrix => "matrix"

def ofKeyword? (word : String) : Option ValueType := all.find? (·.keyword == word)

@[simp] theorem ofKeyword?_keyword (t : ValueType) : ofKeyword? t.keyword = some t := by
  cases t <;> decide

/-- The letter that stands for the type in mnemonics. -/
def letter : ValueType → Char
  | float => 'f'
  | string => 's'
  | point => 'p'
  | vector => 'v'
  | normal => 'n'
  | color => 'c'
  | matrix => 'm'

def storage : ValueType → Storage
  | float => .float
  | string => .string
  | point | vector | normal => .triple
  | color => .color
  | matrix => .matrix

/-- The number of floats that make up an element. -/
def floatCount : ValueType → Nat
  | float => 1
  | string => 0
  | point | vector | normal | color => 3
  | matrix => 16

/-- The place of the type among all types. -/
def index : ValueType → Nat
  | float => 0
  | string => 1
  | point => 2
  | vector => 3
  | normal => 4
  | color => 5
  | matrix => 6

end ValueType

namespace Detail

def keyword : Detail → String
  | uniform => "uniform"
  | varying => "varying"

def ofKeyword? (word : String) : Option Detail :=
  [uniform, varying].find? (·.keyword == word)

@[simp] theorem ofKeyword?_keyword (d : Detail) : ofKeyword? d.keyword = some d := by
  cases d <;> decide

def isVarying : Detail → Bool
  | uniform => false
  | varying => true

/-- Varying if either is. -/
def join : Detail → Detail → Detail
  | uniform, d => d
  | varying, _ => varying

@[simp] theorem isVarying_join (d e : Detail) :
    (d.join e).isVarying = (d.isVarying || e.isVarying) := by
  cases d <;> rfl

/-- Varying if one of them is. -/
def joinAll (ds : List Detail) : Detail := ds.foldl join uniform

/-- The number of elements on a grid of `n` points, which counts as one point at least. -/
def length (d : Detail) (n : Nat) : Nat :=
  match d with
  | uniform => 1
  | varying => max n 1

end Detail

structure Data where
  storage : Storage
  values : Array storage.Elem

namespace Data

def size (d : Data) : Nat := d.values.size

/-- `n` initial elements. -/
def filled (s : Storage) (n : Nat) : Data := ⟨s, Array.replicate n s.initial⟩

/-- The elements, if they have that storage. -/
def as? (d : Data) (s : Storage) : Option (Array s.Elem) :=
  if h : d.storage = s then some (h ▸ d.values) else none

@[simp] theorem size_filled (s : Storage) (n : Nat) : (filled s n).size = n := by
  simp [filled, size]
@[simp] theorem as?_self (s : Storage) (xs : Array s.Elem) : (Data.mk s xs).as? s = some xs := by
  simp [as?]

def get (d : Data) (s : Storage) (i : Nat) : s.Elem := ((d.as? s).bind (·[i]?)).getD s.initial

def set (d : Data) (s : Storage) (i : Nat) (x : s.Elem) : Data :=
  match d.as? s with
  | some xs => ⟨s, xs.setIfInBounds i x⟩
  | none => d

/-- Writes `f i` at each listed place. -/
def write (d : Data) (s : Storage) (places : List Nat) (f : Nat → s.Elem) : Data :=
  match d.as? s with
  | some xs => ⟨s, places.foldl (fun xs i => xs.setIfInBounds i (f i)) xs⟩
  | none => d

/-- To `n` elements; new ones are copies of the first. -/
def resize (d : Data) (n : Nat) : Data :=
  let first := d.values[0]?.getD d.storage.initial
  ⟨d.storage, d.values.extract 0 n ++ Array.replicate (n - d.values.size) first⟩

@[simp] theorem size_resize (d : Data) (n : Nat) : (d.resize n).size = n := by
  simp only [resize, size, Array.size_append, Array.size_extract, Array.size_replicate]
  omega

/-- To `n` elements of a storage, keeping what is there if it has that storage. -/
def reshape (d : Data) (s : Storage) (n : Nat) : Data :=
  if d.storage = s then d.resize n else filled s n

@[simp] theorem size_reshape (d : Data) (s : Storage) (n : Nat) : (d.reshape s n).size = n := by
  unfold reshape; split <;> simp

/-- Takes over the elements of `source` where `active` holds, a single element standing for
all of them. -/
def copyWhere (d source : Data) (active : Nat → Bool) : Data :=
  match source.as? d.storage with
  | some xs =>
    let at? (i : Nat) : Option d.storage.Elem := if xs.size = 1 then xs[0]? else xs[i]?
    ⟨d.storage, d.values.mapIdx fun i old => if active i then (at? i).getD old else old⟩
  | none => d

@[simp] theorem size_copyWhere (d source : Data) (active : Nat → Bool) :
    (d.copyWhere source active).size = d.size := by
  unfold copyWhere; split <;> simp [size]

/-- The text of an element, that of an initial one outside the data. -/
def text (d : Data) (i : Nat) : String := d.storage.text (d.get d.storage i)

end Data

/-- A value on a grid. -/
structure Value where
  type : ValueType
  detail : Detail
  data : Data

namespace Value

/-- One initial element. -/
def fresh (type : ValueType) (detail : Detail) : Value := ⟨type, detail, .filled type.storage 1⟩

def isVarying (v : Value) : Bool := v.detail.isVarying

def size (v : Value) : Nat := v.data.size

/-- Where the element of a point is kept. -/
def place (v : Value) (i : Nat) : Nat := if v.isVarying then i else 0

/-- The element at a point. -/
def get (v : Value) (s : Storage) (i : Nat) : s.Elem := v.data.get s (v.place i)

def getFloat (v : Value) (i : Nat) : Float32 := v.get .float i
def getString (v : Value) (i : Nat) : String := v.get .string i
def getTriple (v : Value) (i : Nat) : Triple Float32 := v.get .triple i

def set (v : Value) (s : Storage) (i : Nat) (x : s.Elem) : Value :=
  { v with data := v.data.set s (v.place i) x }

@[simp] theorem type_set (v : Value) (s : Storage) (i : Nat) (x : s.Elem) :
    (v.set s i x).type = v.type := rfl
@[simp] theorem detail_set (v : Value) (s : Storage) (i : Nat) (x : s.Elem) :
    (v.set s i x).detail = v.detail := rfl

/-- The points at which a result is computed: the active ones, or once for a uniform one. -/
def points (v : Value) (mask : Mask) : List Nat := if v.isVarying then mask.ones else [0]

/-- Writes `f i` at each point of the mask, or `f 0` if uniform. -/
def write (v : Value) (s : Storage) (mask : Mask) (f : Nat → s.Elem) : Value :=
  { v with data := v.data.write s (v.points mask) f }

/-- Zeros at the points of the mask, or throughout if uniform. -/
def clear (v : Value) (mask : Mask) : Value :=
  v.write v.data.storage mask fun _ => v.data.storage.zero

/-- For a grid of `n` points. -/
def sizeTo (v : Value) (n : Nat) : Value :=
  if v.isVarying then { v with data := v.data.resize (max n 1) } else v

/-- The first element at every point. -/
def spreadFirst (v : Value) : Value :=
  if v.isVarying then { v with data := (v.data.resize 1).resize v.size } else v

/-- Of another type, detail and length. -/
def reshape (v : Value) (type : ValueType) (detail : Detail) (n : Nat) : Value :=
  ⟨type, detail, v.data.reshape type.storage n⟩

def text (v : Value) (i : Nat) : String := v.data.text (v.place i)

@[simp] theorem type_write (v : Value) (s : Storage) (m : Mask) (f : Nat → s.Elem) :
    (v.write s m f).type = v.type := rfl
@[simp] theorem detail_write (v : Value) (s : Storage) (m : Mask) (f : Nat → s.Elem) :
    (v.write s m f).detail = v.detail := rfl
@[simp] theorem type_sizeTo (v : Value) (n : Nat) : (v.sizeTo n).type = v.type := by
  unfold sizeTo; split <;> rfl
@[simp] theorem detail_sizeTo (v : Value) (n : Nat) : (v.sizeTo n).detail = v.detail := by
  unfold sizeTo; split <;> rfl

end Value

end ShadingMachine
