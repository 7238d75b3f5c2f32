import ShadingMachine.Value.Triple

/-! Four by four matrices. A point is transformed as a row vector on the left of the matrix,
so a translation stands in the last row. -/
namespace ShadingMachine

/-- The field `mij` is the entry in row `i` and column `j`. -/
@[ext] structure Mat4 (α : Type) where
  (m00 m01 m02 m03 : α)
  (m10 m11 m12 m13 : α)
  (m20 m21 m22 m23 : α)
  (m30 m31 m32 m33 : α)
deriving BEq, Inhabited

namespace Mat4

variable {α : Type}

def entry (m : Mat4 α) : Fin 4 → Fin 4 → α
  | 0, 0 => m.m00
  | 0, 1 => m.m01
  | 0, 2 => m.m02
  | 0, 3 => m.m03
  | 1, 0 => m.m10
  | 1, 1 => m.m11
  | 1, 2 => m.m12
  | 1, 3 => m.m13
  | 2, 0 => m.m20
  | 2, 1 => m.m21
  | 2, 2 => m.m22
  | 2, 3 => m.m23
  | 3, 0 => m.m30
  | 3, 1 => m.m31
  | 3, 2 => m.m32
  | 3, 3 => m.m33

def ofFn (f : Fin 4 → Fin 4 → α) : Mat4 α :=
  ⟨f 0 0, f 0 1, f 0 2, f 0 3, f 1 0, f 1 1, f 1 2, f 1 3,
    f 2 0, f 2 1, f 2 2, f 2 3, f 3 0, f 3 1, f 3 2, f 3 3⟩

@[simp] theorem entry_ofFn (f : Fin 4 → Fin 4 → α) (r c : Fin 4) :
    (ofFn f).entry r c = f r c := by
  match r, c with
  | 0, 0 | 0, 1 | 0, 2 | 0, 3 | 1, 0 | 1, 1 | 1, 2 | 1, 3 => rfl
  | 2, 0 | 2, 1 | 2, 2 | 2, 3 | 3, 0 | 3, 1 | 3, 2 | 3, 3 => rfl

@[simp] theorem ofFn_entry (m : Mat4 α) : ofFn m.entry = m := rfl

/-- The entries row by row. -/
def toList (m : Mat4 α) : List α :=
  [m.m00, m.m01, m.m02, m.m03, m.m10, m.m11, m.m12, m.m13,
    m.m20, m.m21, m.m22, m.m23, m.m30, m.m31, m.m32, m.m33]

/-- From entries row by row, those after the sixteenth being left out. -/
def ofList? : List α → Option (Mat4 α)
  | a00 :: a01 :: a02 :: a03 :: a10 :: a11 :: a12 :: a13 ::
    a20 :: a21 :: a22 :: a23 :: a30 :: a31 :: a32 :: a33 :: _ =>
    some ⟨a00, a01, a02, a03, a10, a11, a12, a13, a20, a21, a22, a23, a30, a31, a32, a33⟩
  | _ => none

@[simp] theorem ofList?_toList (m : Mat4 α) : ofList? m.toList = some m := rfl

def get? (m : Mat4 α) (row column : Nat) : Option α :=
  if h : row < 4 ∧ column < 4 then some (m.entry ⟨row, h.1⟩ ⟨column, h.2⟩) else none

/-- With one entry replaced; there is nothing to replace outside the matrix. -/
def set (m : Mat4 α) (row column : Nat) (v : α) : Mat4 α :=
  ofFn fun r c => if r.val = row ∧ c.val = column then v else m.entry r c

def map (f : α → α) (m : Mat4 α) : Mat4 α := ofFn fun r c => f (m.entry r c)

def zip (f : α → α → α) (m n : Mat4 α) : Mat4 α := ofFn fun r c => f (m.entry r c) (n.entry r c)

def transpose (m : Mat4 α) : Mat4 α := ofFn fun r c => m.entry c r

@[simp] theorem transpose_transpose (m : Mat4 α) : m.transpose.transpose = m := rfl

variable [Scalar α]

def diagonal (v : α) : Mat4 α := ofFn fun r c => if r = c then v else 0

def identity : Mat4 α := diagonal 1

instance : Add (Mat4 α) := ⟨zip (· + ·)⟩
instance : Sub (Mat4 α) := ⟨zip (· - ·)⟩
instance : Neg (Mat4 α) := ⟨map (- ·)⟩

instance : Mul (Mat4 α) where
  mul m n := ofFn fun r c =>
    m.entry r 0 * n.entry 0 c + m.entry r 1 * n.entry 1 c + m.entry r 2 * n.entry 2 c +
      m.entry r 3 * n.entry 3 c

def translation (t : Triple α) : Mat4 α :=
  { (identity : Mat4 α) with m30 := t.x, m31 := t.y, m32 := t.z }

def scaling (s : Triple α) : Mat4 α :=
  { (identity : Mat4 α) with m00 := s.x, m11 := s.y, m22 := s.z }

/-- Signed three by three minors, transposed: the inverse but for the determinant. -/
def adjugate (m : Mat4 α) : Mat4 α :=
  match m with
  | ⟨a0, a1, a2, a3, a4, a5, a6, a7, a8, a9, a10, a11, a12, a13, a14, a15⟩ =>
    ⟨a5 * a10 * a15 - a5 * a11 * a14 - a9 * a6 * a15 + a9 * a7 * a14 + a13 * a6 * a11 - a13 * a7 * a10,
     -a1 * a10 * a15 + a1 * a11 * a14 + a9 * a2 * a15 - a9 * a3 * a14 - a13 * a2 * a11 + a13 * a3 * a10,
     a1 * a6 * a15 - a1 * a7 * a14 - a5 * a2 * a15 + a5 * a3 * a14 + a13 * a2 * a7 - a13 * a3 * a6,
     -a1 * a6 * a11 + a1 * a7 * a10 + a5 * a2 * a11 - a5 * a3 * a10 - a9 * a2 * a7 + a9 * a3 * a6,
     -a4 * a10 * a15 + a4 * a11 * a14 + a8 * a6 * a15 - a8 * a7 * a14 - a12 * a6 * a11 + a12 * a7 * a10,
     a0 * a10 * a15 - a0 * a11 * a14 - a8 * a2 * a15 + a8 * a3 * a14 + a12 * a2 * a11 - a12 * a3 * a10,
     -a0 * a6 * a15 + a0 * a7 * a14 + a4 * a2 * a15 - a4 * a3 * a14 - a12 * a2 * a7 + a12 * a3 * a6,
     a0 * a6 * a11 - a0 * a7 * a10 - a4 * a2 * a11 + a4 * a3 * a10 + a8 * a2 * a7 - a8 * a3 * a6,
     a4 * a9 * a15 - a4 * a11 * a13 - a8 * a5 * a15 + a8 * a7 * a13 + a12 * a5 * a11 - a12 * a7 * a9,
     -a0 * a9 * a15 + a0 * a11 * a13 + a8 * a1 * a15 - a8 * a3 * a13 - a12 * a1 * a11 + a12 * a3 * a9,
     a0 * a5 * a15 - a0 * a7 * a13 - a4 * a1 * a15 + a4 * a3 * a13 + a12 * a1 * a7 - a12 * a3 * a5,
     -a0 * a5 * a11 + a0 * a7 * a9 + a4 * a1 * a11 - a4 * a3 * a9 - a8 * a1 * a7 + a8 * a3 * a5,
     -a4 * a9 * a14 + a4 * a10 * a13 + a8 * a5 * a14 - a8 * a6 * a13 - a12 * a5 * a10 + a12 * a6 * a9,
     a0 * a9 * a14 - a0 * a10 * a13 - a8 * a1 * a14 + a8 * a2 * a13 + a12 * a1 * a10 - a12 * a2 * a9,
     -a0 * a5 * a14 + a0 * a6 * a13 + a4 * a1 * a14 - a4 * a2 * a13 - a12 * a1 * a6 + a12 * a2 * a5,
     a0 * a5 * a10 - a0 * a6 * a9 - a4 * a1 * a10 + a4 * a2 * a9 + a8 * a1 * a6 - a8 * a2 * a5⟩

/-- The first row against its minors. -/
def determinant (m : Mat4 α) : α :=
  let a := m.adjugate
  m.m00 * a.m00 + m.m01 * a.m10 + m.m02 * a.m20 + m.m03 * a.m30

/-- There is none when the determinant is zero or not finite. -/
def inverse? (m : Mat4 α) : Option (Mat4 α) :=
  let d := m.determinant
  if d == 0 || !Scalar.isFinite d then none
  else
    let s := 1 / d
    some (m.adjugate.map (· * s))

/-- By the inverse on the right; a matrix without inverse changes nothing. -/
def divide (m n : Mat4 α) : Mat4 α :=
  match n.inverse? with
  | some i => m * i
  | none => m

/-- The first three coordinates are divided by the fourth when it is neither zero nor one. -/
def transformPoint (m : Mat4 α) (p : Triple α) : Triple α :=
  let x := p.x * m.m00 + p.y * m.m10 + p.z * m.m20 + m.m30
  let y := p.x * m.m01 + p.y * m.m11 + p.z * m.m21 + m.m31
  let z := p.x * m.m02 + p.y * m.m12 + p.z * m.m22 + m.m32
  let w := p.x * m.m03 + p.y * m.m13 + p.z * m.m23 + m.m33
  if w != 0 && w != 1 then ⟨x / w, y / w, z / w⟩ else ⟨x, y, z⟩

/-- A direction is not translated. -/
def transformVector (m : Mat4 α) (v : Triple α) : Triple α :=
  ⟨v.x * m.m00 + v.y * m.m10 + v.z * m.m20,
    v.x * m.m01 + v.y * m.m11 + v.z * m.m21,
    v.x * m.m02 + v.y * m.m12 + v.z * m.m22⟩

/-- By the transpose of the inverse; a matrix without inverse leaves the normal as it is. -/
def transformNormal (m : Mat4 α) (n : Triple α) : Triple α :=
  match m.inverse? with
  | some i => i.transpose.transformVector n
  | none => n

/-- The rotation about an axis by an angle in radians. -/
def rotation (angle : Float32) (axis : Triple Float32) : Mat4 Float32 :=
  let a := axis.normalize
  let s := angle.sin
  let c := angle.cos
  let t := 1 - c
  ⟨t * a.x * a.x + c, t * a.x * a.y + s * a.z, t * a.x * a.z - s * a.y, 0,
    t * a.x * a.y - s * a.z, t * a.y * a.y + c, t * a.y * a.z + s * a.x, 0,
    t * a.x * a.z + s * a.y, t * a.y * a.z - s * a.x, t * a.z * a.z + c, 0,
    0, 0, 0, 1⟩

end Mat4

end ShadingMachine
