import Mathlib.Data.Option.Basic
import ShadingMachine.Proofs.Grid.SamePoint
import ShadingMachine.Proofs.Slots.Accounting
import ShadingMachine.Scene.Grid

/-! Sessions on two grids compared at one point, and what the moves on the stack keep of it. A
variable is the same at the point, whether the point runs or not; an operand is the same there only
if the point runs. -/
namespace ShadingMachine

/-- Arrays whose elements are the same at the point. -/
structure VariableArray.SamePoint (n i : Nat) (a b : VariableArray) : Prop where
  name : a.name = b.name
  type : a.type = b.type
  detail : a.detail = b.detail
  param : a.param = b.param
  output : a.output = b.output
  elements (k : Nat) : Option.Rel (Variable.SamePoint n i) a.elements[k]? b.elements[k]?

inductive Local.SamePoint (n i : Nat) : Local → Local → Prop
  | scalar {v w : Variable} : v.SamePoint n i w → SamePoint n i (.scalar v) (.scalar w)
  | array {a b : VariableArray} : a.SamePoint n i b → SamePoint n i (.array a) (.array b)

namespace Locals

def SamePoint (n i : Nat) (ls ls' : Locals) : Prop :=
  ∀ k : Nat, Option.Rel (Local.SamePoint n i) ls[k]? ls'[k]?

variable {n i : Nat} {ls ls' : Locals}

theorem SamePoint.scalar? (h : SamePoint n i ls ls') (k : Nat) :
    SameOutcome (Variable.SamePoint n i) (ls.scalar? k) (ls'.scalar? k) := by
  have hk := h k
  unfold Locals.scalar?
  generalize ls[k]? = l at hk
  generalize ls'[k]? = l' at hk
  cases hk with
  | none => exact .error _
  | some hl =>
    cases hl with
    | scalar hv => exact .ok hv
    | array ha =>
      simp only [Local.scalar?, ha.name]
      exact .error _

theorem SamePoint.set (h : SamePoint n i ls ls') (k : Nat) {l l' : Local}
    (hl : l.SamePoint n i l') : SamePoint n i (ls.setIfInBounds k l) (ls'.setIfInBounds k l') := by
  intro j
  have hj := h j
  rw [Array.getElem?_setIfInBounds, Array.getElem?_setIfInBounds]
  by_cases hk : k = j
  · subst hk
    rw [if_pos rfl, if_pos rfl]
    by_cases hlt : k < ls.size
    · rw [Array.getElem?_eq_getElem hlt] at hj
      have hlt' : k < ls'.size := by
        by_contra hge
        rw [Array.getElem?_eq_none (by omega)] at hj
        cases hj
      rw [if_pos hlt, if_pos hlt']
      exact .some hl
    · rw [Array.getElem?_eq_none (by omega)] at hj
      have hge' : ¬k < ls'.size := fun hlt' => by
        rw [Array.getElem?_eq_getElem hlt'] at hj
        cases hj
      rw [if_neg hlt, if_neg hge']
      exact .none
  · rw [if_neg hk, if_neg hk]
    exact hj

end Locals

/-- Graphics variables that are the same at the point. -/
def GraphicsState.SamePoint (n i : Nat) (g g' : GraphicsState) : Prop :=
  ∀ x, (g.get x).SamePoint n i (g'.get x)

theorem GraphicsState.SamePoint.set {n i : Nat} {g g' : GraphicsState} (h : SamePoint n i g g')
    (x : GraphicsVariable) {v w : Variable} (hv : v.SamePoint n i w) :
    SamePoint n i (g.set x v) (g'.set x w) := by
  intro y
  rw [get_set, get_set]
  by_cases hx : x = y
  · rw [if_pos hx, if_pos hx]
    exact hv
  · rw [if_neg hx, if_neg hx]
    exact h y

namespace Session

/-- What a slot of a session holds and what one of another holds is the same at the point, if the
point is live. -/
def SameSlot (n i : Nat) (live : Bool) (p p' : Pools) (slot slot' : Slot) : Prop :=
  (p.value slot).SamePoint n i live (p'.value slot')

/-- Whether a point runs. -/
def Runs (s : Session Grid) (i : Nat) : Bool := s.host.env.states.running.get i

/-- A session on a grid of `n` points and one on a grid of one point that run the same program from
the same place, while an instruction has slots in hand. -/
structure AtPoint (n i : Nat) (hand hand' : List Slot) (s t : Session Grid) : Prop where
  program : s.machine.program = t.machine.program
  config : s.machine.config = t.machine.config
  segment : s.machine.segment = t.machine.segment
  position : s.machine.position = t.machine.position
  gridSize : s.machine.gridSize = n
  gridSize_one : t.machine.gridSize = 1
  pointCount : Environment.pointCount s.host.env = n
  pointCount_one : Environment.pointCount t.host.env = 1
  accounts : s.machine.pools.Accounts (hand + s.machine.stack)
  accounts_one : t.machine.pools.Accounts (hand' + t.machine.stack)
  hand : List.Forall₂ (SameSlot n i (s.Runs i) s.machine.pools t.machine.pools) hand hand'
  stack : List.Forall₂ (SameSlot n i (s.Runs i) s.machine.pools t.machine.pools)
    s.machine.stack t.machine.stack
  locals : Locals.SamePoint n i s.machine.locals t.machine.locals
  graphics : GraphicsState.SamePoint n i s.host.env.graphics t.host.env.graphics
  states : RunningStates.SamePoint n i s.host.env.states t.host.env.states

/-- The same while an instruction works, under the mask of the points that run. -/
structure Working (n i : Nat) (hand hand' : List Slot) (s t : Session Grid) : Prop
    extends AtPoint n i hand hand' s t where
  mask : Mask.SameBit n i s.machine.mask t.machine.mask
  mask_get : s.machine.mask.get i = s.Runs i

/-- Sessions that are the same at the point: the same uniform variables, the same elements of
varying variables, the same states of the point, and the same operands as far as it runs. -/
abbrev SamePoint (n i : Nat) (s t : Session Grid) : Prop := AtPoint n i [] [] s t

variable {n i : Nat} {live : Bool} {p p' q q' : Pools} {hand hand' : List Slot}
  {s t : Session Grid}

theorem types_eq {slots slots' : List Slot}
    (h : List.Forall₂ (SameSlot n i live p p') slots slots') :
    slots.map (·.type) = slots'.map (·.type) := by
  induction h with
  | nil => rfl
  | cons hs _ ih =>
    rw [List.map_cons, List.map_cons, ih]
    exact congrArg (· :: _) hs.type

theorem details_eq {slots slots' : List Slot}
    (h : List.Forall₂ (SameSlot n i live p p') slots slots') :
    slots.map (·.detail) = slots'.map (·.detail) := by
  induction h with
  | nil => rfl
  | cons hs _ ih =>
    rw [List.map_cons, List.map_cons, ih]
    exact congrArg (· :: _) hs.detail

/-- Slots that keep their values stay related. -/
theorem forall₂_sameSlot {slots slots' : List Slot}
    (h : List.Forall₂ (SameSlot n i live p p') slots slots')
    (hs : ∀ slot ∈ slots, q.value slot = p.value slot)
    (ht : ∀ slot ∈ slots', q'.value slot = p'.value slot) :
    List.Forall₂ (SameSlot n i live q q') slots slots' := by
  induction h with
  | nil => exact .nil
  | cons hv _ ih =>
    refine .cons ?_ (ih (fun _ hm => hs _ (.tail _ hm)) fun _ hm => ht _ (.tail _ hm))
    unfold SameSlot
    rw [hs _ (.head _), ht _ (.head _)]
    exact hv

theorem AtPoint.length_stack (h : AtPoint n i hand hand' s t) :
    s.machine.stack.length = t.machine.stack.length := h.stack.length_eq

end Session

namespace Machine

/-- A result takes the place of the slots in hand. -/
def put (m : Machine) (type : ValueType) (detail : Detail) (hand : List Slot) (d : Data) :
    Machine :=
  let (slot, pools) := m.pools.allocate type detail m.gridSize
  { m with pools := (pools.store slot d).releaseAll hand, stack := slot :: m.stack }

variable {m : Machine} {hand : List Slot}

theorem accounts_put (h : m.pools.Accounts (hand + m.stack)) (type : ValueType) (detail : Detail)
    (d : Data) : (m.put type detail hand d).pools.Accounts (m.put type detail hand d).stack := by
  have ha := (h.allocate type detail m.gridSize).store
    (m.pools.allocate type detail m.gridSize).1 d
  rw [← Multiset.add_cons, Multiset.cons_coe] at ha
  exact ha.releaseAll

theorem value_put (h : m.pools.Accounts (hand + m.stack)) (type : ValueType) (detail : Detail)
    (d : Data) : ∀ slot ∈ m.stack,
      (m.put type detail hand d).pools.value slot = m.pools.value slot := by
  intro slot hslot
  have ha := h.allocate type detail m.gridSize
  have htaken : slot ∈ (hand + m.stack : Multiset Slot) := by simp [hslot]
  have hne : slot ≠ (m.pools.allocate type detail m.gridSize).1 := fun he =>
    (Multiset.nodup_cons.mp ha.nodup).1 (he ▸ htaken)
  simp only [put, Pools.value_releaseAll]
  rw [Pools.value_store_of_ne hne, h.value_allocate htaken]

theorem value_put_new (h : m.pools.Accounts (hand + m.stack)) (type : ValueType) (detail : Detail)
    (d : Data) : (m.put type detail hand d).pools.value
      (m.pools.allocate type detail m.gridSize).1 = ⟨type, detail, d⟩ := by
  have ha := h.allocate type detail m.gridSize
  simp only [put, Pools.value_releaseAll]
  rw [ha.value_store (Multiset.mem_cons_self _ _)]
  rfl

end Machine

namespace Session

variable {n i : Nat} {hand hand' : List Slot} {s t : Session Grid}

theorem Working.put (h : Working n i hand hand' s t) {type : ValueType} {detail : Detail}
    {d d' : Data} (hd : Value.SamePoint n i (s.Runs i) ⟨type, detail, d⟩ ⟨type, detail, d'⟩) :
    Working n i [] [] { s with machine := s.machine.put type detail hand d }
      { t with machine := t.machine.put type detail hand' d' } := by
  have hnew : SameSlot n i (s.Runs i) (s.machine.put type detail hand d).pools
      (t.machine.put type detail hand' d').pools
      (s.machine.pools.allocate type detail s.machine.gridSize).1
      (t.machine.pools.allocate type detail t.machine.gridSize).1 := by
    unfold SameSlot
    rw [Machine.value_put_new h.accounts, Machine.value_put_new h.accounts_one]
    exact hd
  have hstack := forall₂_sameSlot h.stack (Machine.value_put h.accounts type detail d)
    (Machine.value_put h.accounts_one type detail d')
  exact
    { h with
      accounts := by
        simpa using Machine.accounts_put h.accounts type detail d
      accounts_one := by
        simpa using Machine.accounts_put h.accounts_one type detail d'
      hand := .nil
      stack := .cons hnew hstack }

/-- The slots in hand are given back. -/
theorem Working.release (h : Working n i hand hand' s t) :
    Working n i [] []
      { s with machine := { s.machine with pools := s.machine.pools.releaseAll hand } }
      { t with machine := { t.machine with pools := t.machine.pools.releaseAll hand' } } :=
  { h with
    accounts := by simpa using h.accounts.releaseAll
    accounts_one := by simpa using h.accounts_one.releaseAll
    hand := .nil
    stack := forall₂_sameSlot h.stack (fun _ _ => Pools.value_releaseAll ..)
      fun _ _ => Pools.value_releaseAll .. }

/-- New states of the points, none of which brings a left operand to life. -/
theorem Working.setStates (h : Working n i [] [] s t) {r r' : RunningStates}
    (hr : r.SamePoint n i r') (hlive : s.machine.stack = [] ∨ r.running.get i = s.Runs i) :
    SamePoint n i { s with host := { s.host with env := { s.host.env with states := r } } }
      { t with host := { t.host with env := { t.host.env with states := r' } } } := by
  have hstack : List.Forall₂
      (SameSlot n i (r.running.get i) s.machine.pools t.machine.pools)
      s.machine.stack t.machine.stack := by
    have hs := h.stack
    rcases hlive with hnil | hrun
    · rw [hnil] at hs
      rw [hnil, List.forall₂_nil_left_iff.mp hs]
      exact .nil
    · rw [hrun]
      exact hs
  exact { h.toAtPoint with
    hand := .nil
    stack := hstack
    states := hr }

end Session

namespace Exec

open Session

variable {n i : Nat} {hand hand' : List Slot} {s t : Session Grid}

/-- A result that is computed without the environment. -/
theorem produceAs_eq {ε : Type} (type : ValueType) (detail : Detail) (args : List Slot)
    (f : List Value → Value → Mask → Except ExecError Value) (s : Session ε) :
    produceAs type detail args (fun args out mask => return f args out mask) s =
      let new := s.machine.pools.allocate type detail s.machine.gridSize
      match f (args.map new.2.value) (new.2.value new.1) s.machine.mask with
      | .ok v => .ok () { s with machine := s.machine.put type detail args v.data }
      | .error e => .error e { s with
        machine := { s.machine with pools := (new.2.releaseAll args).release new.1 } } := by
  have hfilled : produceAs type detail args (fun args out mask => return f args out mask) s =
      (let new := s.machine.pools.allocate type detail s.machine.gridSize
       (match f (args.map new.2.value) (new.2.value new.1) s.machine.mask with
        | .ok v => do
          store new.1 v.data
          release args
          push new.1
        | .error e => do
          release args
          release [new.1]
          throw e) { s with machine := { s.machine with pools := new.2 } }) := rfl
  rw [hfilled]
  dsimp only
  cases f (args.map (s.machine.pools.allocate type detail s.machine.gridSize).2.value)
    ((s.machine.pools.allocate type detail s.machine.gridSize).2.value
      (s.machine.pools.allocate type detail s.machine.gridSize).1) s.machine.mask <;> rfl

theorem together_popOne (h : Working n i [] [] s t) (j : Instruction) :
    Together (popOne j) s (popOne j) t fun slot s' slot' t' =>
      Working n i [slot] [slot'] s' t' := by
  have hstack := h.stack
  have ha := h.accounts
  have ha' := h.accounts_one
  unfold popOne
  rw [together_machine_bind]
  generalize hs : s.machine.stack = stack at hstack ha
  generalize ht : t.machine.stack = stack' at hstack ha'
  cases hstack with
  | nil => rfl
  | cons hv hvs =>
    exact { h with
      accounts := by simpa [← Multiset.cons_coe] using ha
      accounts_one := by simpa [← Multiset.cons_coe] using ha'
      hand := .cons hv .nil
      stack := hvs }

theorem together_pop (h : Working n i [] [] s t) (j : Instruction) (k : Nat) :
    Together (pop j k) s (pop j k) t fun slots s' slots' t' =>
      Working n i slots slots' s' t' ∧ slots.length = k := by
  unfold pop
  rw [together_machine_bind]
  dsimp only
  rw [← h.length_stack]
  by_cases hk : s.machine.stack.length < k
  · rw [if_pos hk, if_pos hk]
    rfl
  · rw [if_neg hk, if_neg hk]
    have hcoe (stack : List Slot) :
        (((stack.take k).reverse : List Slot) + (stack.drop k : List Slot) : Multiset Slot) =
          (([] : List Slot) + stack : Multiset Slot) := by
      rw [Multiset.coe_reverse, Multiset.coe_add, List.take_append_drop]
      simp
    refine ⟨{ h with
      accounts := ?_
      accounts_one := ?_
      hand := List.rel_reverse (List.forall₂_take k h.stack)
      stack := List.forall₂_drop k h.stack }, ?_⟩
    · show s.machine.pools.Accounts _
      rw [hcoe]
      exact h.accounts
    · show t.machine.pools.Accounts _
      rw [hcoe]
      exact h.accounts_one
    · rw [List.length_reverse, List.length_take]
      omega

theorem together_popValue (h : Working n i [] [] s t) (j : Instruction) :
    Together (popValue j) s (popValue j) t fun v s' w t' =>
      v.SamePoint n i (s'.Runs i) w ∧ Working n i [] [] s' t' := by
  refine (together_popOne h j).bind fun slot s' slot' t' h' => ?_
  rw [together_value_bind]
  obtain ⟨hv, -⟩ := List.forall₂_cons.mp h'.hand
  exact ⟨hv, h'.release⟩

/-- A new slot is of the same shape on both sides, whatever it holds. -/
theorem sameShape_allocate (h : Working n i hand hand' s t) (type : ValueType) (detail : Detail) :
    Value.SameShape n
      ((s.machine.pools.allocate type detail s.machine.gridSize).2.value
        (s.machine.pools.allocate type detail s.machine.gridSize).1)
      ((t.machine.pools.allocate type detail t.machine.gridSize).2.value
        (t.machine.pools.allocate type detail t.machine.gridSize).1) := by
  have hs := h.accounts.shape_allocate type detail s.machine.gridSize
  have ht := h.accounts_one.shape_allocate type detail t.machine.gridSize
  refine ⟨rfl, rfl, hs.2.2.1.trans ht.2.2.1.symm, ?_, ?_⟩
  · rw [hs.2.2.2, h.gridSize]
    rfl
  · rw [ht.2.2.2, h.gridSize_one]
    cases detail <;> rfl

/-- A result that is the same at the point whatever its slot held before. -/
theorem together_produceAs (h : Working n i hand hand' s t) {type : ValueType} {detail : Detail}
    {f g : List Value → Value → Mask → Except ExecError Value}
    (hfg : ∀ out out' : Value, out.SameShape n out' → out.type = type → out.detail = detail →
      SameOutcome
        (fun v w => v.SamePoint n i (s.Runs i) w ∧ v.type = out.type ∧ v.detail = out.detail)
        (f (hand.map s.machine.pools.value) out s.machine.mask)
        (g (hand'.map t.machine.pools.value) out' t.machine.mask)) :
    Together (produceAs type detail hand fun args out mask => return f args out mask) s
      (produceAs type detail hand' fun args out mask => return g args out mask) t
      fun _ s' _ t' => Working n i [] [] s' t' := by
  have hargs : hand.map (s.machine.pools.allocate type detail s.machine.gridSize).2.value =
      hand.map s.machine.pools.value :=
    List.map_congr_left fun slot hm => h.accounts.value_allocate (by simp [hm]) ..
  have hargs' : hand'.map (t.machine.pools.allocate type detail t.machine.gridSize).2.value =
      hand'.map t.machine.pools.value :=
    List.map_congr_left fun slot hm => h.accounts_one.value_allocate (by simp [hm]) ..
  have hout := hfg _ _ (sameShape_allocate h type detail) rfl rfl
  rw [← hargs, ← hargs'] at hout
  unfold Together
  rw [produceAs_eq, produceAs_eq]
  dsimp only
  generalize f _ _ _ = r at hout ⊢
  generalize g _ _ _ = r' at hout ⊢
  cases hout with
  | ok hv => exact h.put (hv.1.data hv.2.1 hv.2.2)
  | error e => rfl

end Exec

end ShadingMachine
