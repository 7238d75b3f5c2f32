import ShadingMachine.Number.Layout
import ShadingMachine.Number.Scalar

/-! Points, vectors and normals as three coordinates, and colors as three channels. -/
namespace ShadingMachine

structure Triple (α : Type) where
  x : α
  y : α
  z : α
deriving BEq, Inhabited

structure Color (α : Type) where
  r : α
  g : α
  b : α
deriving BEq, Inhabited

variable {α : Type}

namespace Triple

def splat (v : α) : Triple α := ⟨v, v, v⟩

def map (f : α → α) (u : Triple α) : Triple α := ⟨f u.x, f u.y, f u.z⟩

def zip (f : α → α → α) (u v : Triple α) : Triple α := ⟨f u.x v.x, f u.y v.y, f u.z v.z⟩

/-- A coordinate by number; numbers past the last one stand for the last. -/
def get (u : Triple α) : Nat → α
  | 0 => u.x
  | 1 => u.y
  | _ => u.z

def set (u : Triple α) (v : α) : Nat → Triple α
  | 0 => { u with x := v }
  | 1 => { u with y := v }
  | _ => { u with z := v }

def toList (u : Triple α) : List α := [u.x, u.y, u.z]

@[simp] theorem get_splat (v : α) (i : Nat) : (splat v).get i = v := by
  unfold get; split <;> rfl
@[simp] theorem get_map (f : α → α) (u : Triple α) (i : Nat) : (u.map f).get i = f (u.get i) := by
  unfold get; split <;> rfl
@[simp] theorem get_zip (f : α → α → α) (u v : Triple α) (i : Nat) :
    (zip f u v).get i = f (u.get i) (v.get i) := by
  unfold get; split <;> rfl
@[simp] theorem get_set (u : Triple α) (v : α) (i : Nat) : (u.set v i).get i = v := by
  match i with
  | 0 | 1 | _ + 2 => rfl

variable [Scalar α]

instance : Add (Triple α) := ⟨zip (· + ·)⟩
instance : Sub (Triple α) := ⟨zip (· - ·)⟩
instance : Mul (Triple α) := ⟨zip (· * ·)⟩
instance : Div (Triple α) := ⟨zip (· / ·)⟩
instance : Neg (Triple α) := ⟨map (- ·)⟩

def scale (u : Triple α) (s : α) : Triple α := u.map (· * s)

def shrink (u : Triple α) (s : α) : Triple α := u.map (· / s)

def dot (u v : Triple α) : α := u.x * v.x + u.y * v.y + u.z * v.z

def cross (u v : Triple α) : Triple α :=
  ⟨u.y * v.z - u.z * v.y, u.z * v.x - u.x * v.z, u.x * v.y - u.y * v.x⟩

end Triple

namespace Color

def splat (v : α) : Color α := ⟨v, v, v⟩

def map (f : α → α) (c : Color α) : Color α := ⟨f c.r, f c.g, f c.b⟩

def zip (f : α → α → α) (c d : Color α) : Color α := ⟨f c.r d.r, f c.g d.g, f c.b d.b⟩

/-- A channel by number; numbers past the last one stand for the last. -/
def get (c : Color α) : Nat → α
  | 0 => c.r
  | 1 => c.g
  | _ => c.b

def set (c : Color α) (v : α) : Nat → Color α
  | 0 => { c with r := v }
  | 1 => { c with g := v }
  | _ => { c with b := v }

def toList (c : Color α) : List α := [c.r, c.g, c.b]

def toTriple (c : Color α) : Triple α := ⟨c.r, c.g, c.b⟩

def ofTriple (u : Triple α) : Color α := ⟨u.x, u.y, u.z⟩

@[simp] theorem ofTriple_toTriple (c : Color α) : ofTriple c.toTriple = c := rfl
@[simp] theorem toTriple_ofTriple (u : Triple α) : (ofTriple u).toTriple = u := rfl
@[simp] theorem get_splat (v : α) (i : Nat) : (splat v).get i = v := by
  unfold get; split <;> rfl
@[simp] theorem get_map (f : α → α) (c : Color α) (i : Nat) : (c.map f).get i = f (c.get i) := by
  unfold get; split <;> rfl
@[simp] theorem get_zip (f : α → α → α) (c d : Color α) (i : Nat) :
    (zip f c d).get i = f (c.get i) (d.get i) := by
  unfold get; split <;> rfl
@[simp] theorem get_set (c : Color α) (v : α) (i : Nat) : (c.set v i).get i = v := by
  match i with
  | 0 | 1 | _ + 2 => rfl

variable [Scalar α]

instance : Add (Color α) := ⟨zip (· + ·)⟩
instance : Sub (Color α) := ⟨zip (· - ·)⟩
instance : Mul (Color α) := ⟨zip (· * ·)⟩
instance : Div (Color α) := ⟨zip (· / ·)⟩
instance : Neg (Color α) := ⟨map (- ·)⟩

def black : Color α := splat 0

def white : Color α := splat 1

def scale (c : Color α) (s : α) : Color α := c.map (· * s)

end Color

namespace Triple

def length (u : Triple Float32) : Float32 := (u.dot u).sqrt

/-- Of length one; what has no positive length stays. -/
def normalize (u : Triple Float32) : Triple Float32 :=
  if 0 < u.length then u.shrink u.length else u

end Triple

/-- Numbers in brackets, with a space between. -/
def bracketed (xs : List Float32) : String :=
  "[" ++ " ".intercalate (xs.map Number.Layout.full.write) ++ "]"

end ShadingMachine
