import ShadingMachine.Machine.Execution
import ShadingMachine.Proofs.Grid.Operands

/-! Every session on a grid has a session on a grid of one point beside it for each of its points:
uniform values stay, of a varying value the element at the point is kept, and of the states the
bits of the point. -/
namespace ShadingMachine

namespace Value

/-- The uniform value, or the element at a point. -/
def atPoint (v : Value) (i : Nat) : Value :=
  match v.detail with
  | .uniform => v
  | .varying => { v with data := ⟨v.data.storage, #[v.data.get v.data.storage i]⟩ }

/-- One element, or one for each of `n` points. -/
def IsSized (n : Nat) (v : Value) : Prop := v.size = v.detail.length n

theorem IsSized.samePoint {n : Nat} {v : Value} (h : v.IsSized n) (i : Nat) :
    v.SamePoint n i true (v.atPoint i) := by
  cases hd : v.detail with
  | uniform =>
    have hsize : v.size = 1 := by simpa [IsSized, hd, Detail.length] using h
    have hv : v.atPoint i = v := by simp [atPoint, hd]
    rw [hv]
    refine ⟨⟨rfl, rfl, rfl, h, hsize⟩, fun _ => rfl, fun hv _ => ?_⟩
    rw [hd] at hv
    cases hv
  | varying =>
    have hv : v.atPoint i =
        { v with data := ⟨v.data.storage, #[v.data.get v.data.storage i]⟩ } := by
      simp [atPoint, hd]
    rw [hv]
    refine ⟨⟨rfl, rfl, rfl, h, rfl⟩, fun hu => ?_, fun _ _ => ?_⟩
    · rw [hd] at hu
      cases hu
    · simp [Data.get_mk]

theorem isSized_sizeTo {v : Value} (h : v.size = 1) (n : Nat) : (v.sizeTo n).IsSized n := by
  unfold IsSized sizeTo
  cases hd : v.detail with
  | uniform => simp [Value.isVarying, hd, Detail.isVarying, Detail.length, h]
  | varying =>
    simp only [Value.isVarying, hd, Detail.isVarying, if_true, Detail.length]
    exact Data.size_resize v.data (max n 1)

theorem isSized_write {n : Nat} {v : Value} (h : v.IsSized n) (s : Storage) (m : Mask)
    (f : Nat → s.Elem) : (v.write s m f).IsSized n := by
  simpa [IsSized, Value.size, Value.write] using h

end Value

def Variable.atPoint (v : Variable) (i : Nat) : Variable := v.mapValue (·.atPoint i)

theorem Variable.samePoint {n : Nat} {v : Variable} (h : v.IsSized n) (i : Nat) :
    v.SamePoint n i (v.atPoint i) := ⟨h.samePoint i, rfl, rfl, rfl⟩

namespace Local

def atPoint (l : Local) (i : Nat) : Local := l.mapVariables (·.atPoint i)

def IsSized (n : Nat) : Local → Prop
  | scalar v => v.IsSized n
  | array a => ∀ v ∈ a.elements, v.IsSized n

theorem IsSized.samePoint {n : Nat} {l : Local} (h : l.IsSized n) (i : Nat) :
    l.SamePoint n i (l.atPoint i) := by
  cases l with
  | scalar v => exact .scalar (Variable.samePoint h i)
  | array a =>
    refine .array ⟨rfl, rfl, rfl, rfl, rfl, fun k => ?_⟩
    show Option.Rel _ a.elements[k]? (a.elements.map (·.atPoint i))[k]?
    rw [Array.getElem?_map]
    cases hk : a.elements[k]? with
    | none => exact .none
    | some v => exact .some (Variable.samePoint (h v (Array.mem_of_getElem? hk)) i)

theorem isSized_ofDeclaration (d : Declaration) (n : Nat) :
    ((ofDeclaration d).mapVariables (·.sizeTo n)).IsSized n := by
  have hfresh (name : String) : (Variable.fresh name d.type d.detail).size = 1 := by
    simp [Variable.fresh, Value.fresh, Value.size]
  unfold ofDeclaration
  cases d.arrayLength with
  | none => exact Value.isSized_sizeTo (hfresh d.name) n
  | some length =>
    intro v hv
    simp only [VariableArray.fresh, VariableArray.mapElements] at hv
    obtain ⟨w, hw, rfl⟩ := Array.mem_map.mp hv
    obtain ⟨k, -, rfl⟩ := List.mem_map.mp (List.mem_toArray.mp hw)
    exact Value.isSized_sizeTo (hfresh _) n

end Local

namespace RunningStates

/-- The bits of a point, with no sets to spare. -/
def atPoint (s : RunningStates) (i : Nat) : RunningStates where
  running := .fill 1 (s.running.get i)
  current := .fill 1 (s.current.get i)
  saved := s.saved.map fun m => .fill 1 (m.get i)
  spare := []

/-- All sets are sets of `n` points. -/
def IsSized (n : Nat) (s : RunningStates) : Prop :=
  s.running.size = n ∧ s.current.size = n ∧ ∀ m ∈ s.saved, m.size = n

theorem IsSized.samePoint {n : Nat} {s : RunningStates} (h : s.IsSized n) (i : Nat) :
    s.SamePoint n i (s.atPoint i) := by
  have hbit {m : Mask} (hm : m.size = n) : Mask.SameBit n i m (.fill 1 (m.get i)) := by
    refine ⟨hm, by simp, ?_⟩
    cases m.get i <;> simp [Mask.fill]
  refine ⟨hbit h.1, hbit h.2.1, ?_⟩
  have hsaved := h.2.2
  show List.Forall₂ _ s.saved (s.saved.map _)
  rw [List.forall₂_map_right_iff, List.forall₂_same]
  exact fun m hm => hbit (hsaved m hm)

end RunningStates

namespace Session

/-- The session of a point, in which nothing is on the stack. -/
def atPoint (s : Session Grid) (i : Nat) : Session Grid where
  machine := { s.machine with
    locals := s.machine.locals.map (·.atPoint i)
    stack := []
    pools := .empty
    gridSize := 1 }
  host := { s.host with env := { s.host.env with
    resolution := ⟨0, 0⟩
    graphics := .ofFn fun x => (s.host.env.graphics.get x).atPoint i
    states := s.host.env.states.atPoint i } }

/-- A machine bound to a grid of `n` points, with nothing on the stack. -/
structure IsSized (n : Nat) (s : Session Grid) : Prop where
  gridSize : s.machine.gridSize = n
  pointCount : Environment.pointCount s.host.env = n
  stack : s.machine.stack = []
  accounts : s.machine.Accounts
  locals : ∀ l ∈ s.machine.locals, l.IsSized n
  graphics (x : GraphicsVariable) : (s.host.env.graphics.get x).IsSized n
  states : s.host.env.states.IsSized n

theorem IsSized.samePoint {n : Nat} {s : Session Grid} (h : s.IsSized n) (i : Nat) :
    SamePoint n i s (s.atPoint i) where
  program := rfl
  config := rfl
  segment := rfl
  position := rfl
  gridSize := h.gridSize
  gridSize_one := rfl
  pointCount := h.pointCount
  pointCount_one := rfl
  accounts := by simpa [Machine.Accounts] using h.accounts
  accounts_one := by simpa [atPoint] using Pools.accounts_empty
  hand := .nil
  stack := by
    rw [h.stack]
    exact .nil
  locals k := by
    show Option.Rel _ s.machine.locals[k]? (s.machine.locals.map (·.atPoint i))[k]?
    rw [Array.getElem?_map]
    cases hk : s.machine.locals[k]? with
    | none => exact .none
    | some l => exact .some ((h.locals l (Array.mem_of_getElem? hk)).samePoint i)
  graphics x := by
    show Variable.SamePoint n i _ ((GraphicsState.ofFn _).get x)
    rw [GraphicsState.get_ofFn]
    exact Variable.samePoint (h.graphics x) i
  states := h.states.samePoint i

theorem isSized_patch (r : Resolution) (x : GraphicsVariable) :
    ((Grid.patch r).get x).IsSized r.pointCount := by
  have hsized : ((Variable.fresh x.name x.type x.detail).sizeTo r.pointCount).IsSized
      r.pointCount := by
    refine Value.isSized_sizeTo ?_ _
    simp [Variable.fresh, Value.fresh, Value.size]
  have hfill (s : Storage) (f : Nat → s.Elem) :
      (((Variable.fresh x.name x.type x.detail).sizeTo r.pointCount).mapValue
        (·.write s (.full r.pointCount) f)).IsSized r.pointCount :=
    Value.isSized_write hsized s _ f
  unfold Grid.patch
  rw [GraphicsState.get_ofFn]
  generalize Variable.sizeTo _ _ = v at hsized hfill ⊢
  cases x <;> first | exact hsized | exact hfill _ _

/-- A fresh machine that is bound to a fresh grid. -/
theorem isSized_bind (p : Program) (c : Config) (u v : Nat) (log : Text.Log) :
    (Exec.bind.after ⟨.fresh p c, .fresh u v, log⟩).IsSized ((u + 1) * (v + 1)) where
  gridSize := by
    show max ((u + 1) * (v + 1)) 1 = _
    have hpos : 0 < (u + 1) * (v + 1) := Nat.mul_pos (by omega) (by omega)
    omega
  pointCount := rfl
  stack := rfl
  accounts := by
    show Pools.empty.Accounts _
    exact Pools.accounts_empty
  locals l hl := by
    have hpos : 0 < (u + 1) * (v + 1) := Nat.mul_pos (by omega) (by omega)
    have hmax : max ((u + 1) * (v + 1)) 1 = (u + 1) * (v + 1) := by omega
    have hl' : l ∈ (p.locals.map Local.ofDeclaration).map
        (Local.mapVariables (·.sizeTo (max ((u + 1) * (v + 1)) 1))) := hl
    rw [hmax] at hl'
    obtain ⟨l', hmem, rfl⟩ := Array.mem_map.mp hl'
    obtain ⟨d, -, rfl⟩ := Array.mem_map.mp hmem
    exact Local.isSized_ofDeclaration d _
  graphics x := isSized_patch ⟨u, v⟩ x
  states := ⟨rfl, rfl, fun m hm => by cases hm⟩

end Session

end ShadingMachine
