import ShadingMachine.Value.Basic

/-! Temporary values live in slots, in one pool for each type and detail. A slot that is given
back keeps what it holds and is the first to be handed out again. -/
namespace ShadingMachine

/-- A slot by its pool and its number there. It is supposed that no pool comes to have `2 ^ 32`
slots, where a number of 32 bits would wrap around; here there is no bound. -/
structure Slot where
  type : ValueType
  detail : Detail
  index : Nat
deriving DecidableEq, Inhabited

/-- The slots of one type and detail, the free ones by number, and how many are in use. -/
structure Pool where
  slots : Array Data
  free : List Nat
  inUse : Nat
deriving Inhabited

namespace Pool

def empty : Pool := ⟨#[], [], 0⟩

/-- A slot with `n` elements, whatever it held before. -/
def allocate (p : Pool) (s : Storage) (n : Nat) : Nat × Pool :=
  match p.free with
  | i :: free => (i, ⟨p.slots.modify i (·.reshape s n), free, p.inUse + 1⟩)
  | [] => (p.slots.size, ⟨p.slots.push (.filled s n), [], p.inUse + 1⟩)

def release (p : Pool) (i : Nat) : Pool := { p with free := i :: p.free, inUse := p.inUse - 1 }

@[simp] theorem inUse_allocate (p : Pool) (s : Storage) (n : Nat) :
    (p.allocate s n).2.inUse = p.inUse + 1 := by
  unfold allocate; split <;> rfl
@[simp] theorem inUse_release (p : Pool) (i : Nat) : (p.release i).inUse = p.inUse - 1 := rfl
@[simp] theorem slots_release (p : Pool) (i : Nat) : (p.release i).slots = p.slots := rfl

end Pool

/-- The number of a pool: types in order, the uniform pool of a type before the varying one. -/
def poolIndex (type : ValueType) (detail : Detail) : Fin 14 :=
  match type, detail with
  | .float, .uniform => 0
  | .float, .varying => 1
  | .string, .uniform => 2
  | .string, .varying => 3
  | .point, .uniform => 4
  | .point, .varying => 5
  | .vector, .uniform => 6
  | .vector, .varying => 7
  | .normal, .uniform => 8
  | .normal, .varying => 9
  | .color, .uniform => 10
  | .color, .varying => 11
  | .matrix, .uniform => 12
  | .matrix, .varying => 13

theorem poolIndex_inj {t u : ValueType} {d e : Detail} :
    poolIndex t d = poolIndex u e ↔ t = u ∧ d = e := by
  cases t <;> cases d <;> cases u <;> cases e <;> decide

def poolKinds : List (ValueType × Detail) :=
  ValueType.all.flatMap fun t => [(t, .uniform), (t, .varying)]

structure Pools where
  pools : Vector Pool 14

namespace Pools

def empty : Pools := ⟨Vector.replicate 14 .empty⟩

def get (p : Pools) (type : ValueType) (detail : Detail) : Pool := p.pools[poolIndex type detail]

def set (p : Pools) (type : ValueType) (detail : Detail) (pool : Pool) : Pools :=
  ⟨p.pools.set (poolIndex type detail) pool⟩

theorem get_set (p : Pools) (t : ValueType) (d : Detail) (q : Pool) (u : ValueType) (e : Detail) :
    (p.set t d q).get u e = if t = u ∧ d = e then q else p.get u e := by
  simp [get, set, Vector.getElem_set, Fin.val_inj, poolIndex_inj]

/-- A slot for a value on a grid of `n` points. -/
def allocate (p : Pools) (type : ValueType) (detail : Detail) (n : Nat) : Slot × Pools :=
  let (i, pool) := (p.get type detail).allocate type.storage (detail.length n)
  (⟨type, detail, i⟩, p.set type detail pool)

def release (p : Pools) (s : Slot) : Pools :=
  p.set s.type s.detail ((p.get s.type s.detail).release s.index)

def releaseAll (p : Pools) (slots : List Slot) : Pools := slots.foldl release p

@[simp] theorem releaseAll_nil (p : Pools) : p.releaseAll [] = p := rfl

/-- The value in a slot. -/
def value (p : Pools) (s : Slot) : Value :=
  ⟨s.type, s.detail, (p.get s.type s.detail).slots[s.index]?.getD (.filled s.type.storage 0)⟩

def store (p : Pools) (s : Slot) (d : Data) : Pools :=
  let pool := p.get s.type s.detail
  p.set s.type s.detail { pool with slots := pool.slots.setIfInBounds s.index d }

@[simp] theorem type_value (p : Pools) (s : Slot) : (p.value s).type = s.type := rfl
@[simp] theorem detail_value (p : Pools) (s : Slot) : (p.value s).detail = s.detail := rfl

end Pools

end ShadingMachine
