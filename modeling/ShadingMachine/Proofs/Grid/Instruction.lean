import ShadingMachine.Machine.Step
import ShadingMachine.Proofs.Grid.Operands

/-! The instructions that work point by point do the same at a point whatever the grid around it,
and so do those that change the states of the points, as long as no operand is left from before:
what an operand holds at a point that did not run must not come to life. -/
namespace ShadingMachine

namespace Detail

theorem uniform_of_foldl_join {ds : List Detail} {d : Detail} (h : ds.foldl join d = .uniform) :
    d = .uniform ∧ ∀ e ∈ ds, e = .uniform := by
  induction ds generalizing d with
  | nil => exact ⟨h, by simp⟩
  | cons e ds ih =>
    obtain ⟨hde, hds⟩ := ih h
    cases d with
    | uniform => exact ⟨rfl, List.forall_mem_cons.mpr ⟨hde, hds⟩⟩
    | varying => cases hde

theorem uniform_of_joinAll {ds : List Detail} (h : joinAll ds = .uniform) :
    ∀ d ∈ ds, d = .uniform := (uniform_of_foldl_join h).2

end Detail

namespace Opcode

/-- The opcodes that change which points run. -/
def switches : Opcode → Bool
  | flow .leaveScope | flow .selectCurrent | flow .invertScope => true
  | _ => false

/-- The opcodes that work point by point, those that move operands and those that keep the states
of the points, but no jumps. -/
def isPointwise : Opcode → Bool
  | dup | drop | pushFloat | pushString | pushPoint | pushVariable | popVariable => true
  | geometry _ => true
  | flow f => !(flow f).isJump
  | code => code.rule?.isSome

end Opcode

namespace Session

variable {n i : Nat} {hand hand' : List Slot} {s t : Session Grid}

theorem Working.operands (h : Working n i hand hand' s t) :
    List.Forall₂ (Value.SamePoint n i (s.machine.mask.get i))
      (hand.map s.machine.pools.value) (hand'.map t.machine.pools.value) := by
  rw [List.forall₂_map_left_iff, List.forall₂_map_right_iff, h.mask_get]
  exact h.hand

end Session

namespace Exec

open Session

variable {n i : Nat} {hand hand' : List Slot} {s t : Session Grid}

theorem together_pushData (h : Working n i [] [] s t) {type : ValueType} {detail : Detail}
    {d d' : Data} (hd : Value.SamePoint n i (s.Runs i) ⟨type, detail, d⟩ ⟨type, detail, d'⟩) :
    Together (pushData type detail d) s (pushData type detail d') t
      fun _ s' _ t' => Working n i [] [] s' t' := h.put hd

theorem together_pushUniform (hi : i < n) (h : Working n i [] [] s t) (type : ValueType)
    (x : type.storage.Elem) :
    Together (pushUniform type x) s (pushUniform type x) t
      fun _ s' _ t' => Working n i [] [] s' t' := by
  have hshape := sameShape_allocate h type .uniform
  have hs := (h.accounts.shape_allocate type .uniform s.machine.gridSize).2.2.1
  let constant (_ : Nat) : type.storage.Elem := x
  have hwrite := hshape.write (f := constant) (g := constant) hi h.mask hs (fun _ => rfl) fun _ => rfl
  rw [h.mask_get] at hwrite
  exact h.put (hwrite.data rfl rfl)

/-- A variable is already sized to the grid. -/
theorem together_pushCopy (hi : i < n) (h : Working n i [] [] s t) {v w : Value}
    (hv : v.SamePoint n i true w) :
    Together (pushCopy v) s (pushCopy w) t fun _ s' _ t' => Working n i [] [] s' t' := by
  have hsized : (v.isVarying && v.size != s.machine.gridSize) = false := by
    cases hd : v.detail with
    | uniform => simp [Value.isVarying, hd, Detail.isVarying]
    | varying =>
      have hsize := hv.size
      rw [hd, Detail.length, ← h.gridSize] at hsize
      have hn := h.gridSize
      simp [hsize]
      omega
  have hsized' : (w.isVarying && w.size != t.machine.gridSize) = false := by
    simp [hv.size_one, h.gridSize_one]
  unfold pushCopy
  rw [together_machine_bind]
  dsimp only
  rw [hsized, hsized', if_neg Bool.false_ne_true, if_neg Bool.false_ne_true, ← hv.type, ← hv.detail]
  exact together_pushData h (hv.weaken.data rfl rfl)

theorem together_readVariable (h : Working n i hand hand' s t) (r : VariableRef) :
    Together (readVariable r) s (readVariable r) t fun v s' w t' =>
      v.SamePoint n i w ∧ s' = s ∧ t' = t := by
  cases r with
  | declared k =>
    unfold readVariable
    rw [together_machine_bind]
    exact Together.ofExcept (h.locals.scalar? k) fun v w hv => ⟨hv, rfl, rfl⟩
  | graphics x => exact ⟨h.graphics x, rfl, rfl⟩

theorem together_writeVariable (h : Working n i hand hand' s t) (r : VariableRef) {v w : Variable}
    (hv : v.SamePoint n i w) :
    Together (writeVariable r v) s (writeVariable r w) t
      fun _ s' _ t' => Working n i hand hand' s' t' := by
  cases r with
  | declared k => exact { h with locals := h.locals.set k (.scalar hv) }
  | graphics x => exact { h with graphics := h.graphics.set x hv }

theorem together_assign (hi : i < n) (h : Working n i hand hand' s t) (j : Instruction)
    (r : VariableRef) {source source' : Value}
    (hsource : source.SamePoint n i (s.Runs i) source') :
    Together (assign j r source) s (assign j r source') t
      fun _ s' _ t' => Working n i hand hand' s' t' := by
  unfold assign
  refine (together_readVariable h r).bind fun v s' w t' hv => ?_
  obtain ⟨hv, rfl, rfl⟩ := hv
  rw [together_machine_bind]
  rw [← h.mask_get] at hsource
  have hassign := hv.assign hi h.mask hsource
  generalize v.assign source _ = x at hassign ⊢
  generalize w.assign source' _ = y at hassign ⊢
  cases hassign with
  | ok hv' => exact together_writeVariable h r hv'
  | error e => exact { h with }

theorem together_pushVariable (hi : i < n) (h : Working n i [] [] s t) (j : Instruction) :
    Together (pushVariable j) s (pushVariable j) t fun _ s' _ t' => Working n i [] [] s' t' := by
  unfold pushVariable
  refine Together.ofExcept_bind fun r => ?_
  refine (together_readVariable h r).bind fun v s' w t' hv => ?_
  obtain ⟨hv, rfl, rfl⟩ := hv
  exact together_pushCopy hi h hv.value

theorem together_popVariable (hi : i < n) (h : Working n i [] [] s t) (j : Instruction) :
    Together (popVariable j) s (popVariable j) t fun _ s' _ t' => Working n i [] [] s' t' := by
  unfold popVariable
  refine Together.ofExcept_bind fun r => ?_
  refine (together_popOne h j).bind fun slot s' slot' t' h' => ?_
  obtain ⟨hv, -⟩ := List.forall₂_cons.mp h'.hand
  refine Together.attempt_bind (together_assign hi h' j r hv) (fun _ u _ u' hu => hu.release) ?_
  exact fun e u u' => rfl

/-- A function that is applied point by point, to the slots in hand and more values. -/
theorem together_produceAs_fill (hi : i < n) (h : Working n i hand hand' s t) (f : Elementwise)
    (op : String) {detail : Detail} {more more' : List Value}
    (hmore : List.Forall₂ (Value.SamePoint n i (s.machine.mask.get i)) more more')
    (huniform : detail = .uniform →
      (∀ slot ∈ hand, slot.detail = .uniform) ∧ ∀ v ∈ more, v.detail = .uniform) :
    Together
      (produceAs f.type detail hand fun args out mask => return f.fill op (args ++ more) out mask) s
      (produceAs f.type detail hand' fun args out mask => return f.fill op (args ++ more') out mask)
      t fun _ s' _ t' => Working n i [] [] s' t' := by
  refine together_produceAs h fun out out' hout _ hd => ?_
  rw [← h.mask_get]
  refine f.fill_samePoint op hi h.mask (List.rel_append h.operands hmore) hout fun hu v hv => ?_
  obtain ⟨hslots, hvalues⟩ := huniform (hd ▸ hu)
  rcases List.mem_append.mp hv with hv | hv
  · obtain ⟨slot, hslot, rfl⟩ := List.mem_map.mp hv
    exact hslots slot hslot
  · exact hvalues v hv

theorem together_applyRule (hi : i < n) (h : Working n i [] [] s t) (j : Instruction) (r : Rule) :
    Together (applyRule j r) s (applyRule j r) t fun _ s' _ t' => Working n i [] [] s' t' := by
  unfold applyRule
  refine (together_pop h j r.arity).bind fun slots s' slots' t' h' => ?_
  dsimp only
  rw [← types_eq h'.1.hand]
  cases r.choose (slots.map (·.type)) with
  | none => rfl
  | some f =>
    have huniform (hu : Detail.joinAll (slots.map (·.detail)) = .uniform) :
        (∀ slot ∈ slots, slot.detail = .uniform) ∧ ∀ v ∈ ([] : List Value), v.detail = .uniform :=
      ⟨fun slot hslot => Detail.uniform_of_joinAll hu _ (List.mem_map_of_mem hslot), by simp⟩
    have hfill := together_produceAs_fill hi h'.1 f j.name .nil huniform
    simp only [List.append_nil] at hfill
    unfold produce
    rw [← details_eq h'.1.hand]
    exact hfill

/-- The result of turning a normal by a reference is pushed. -/
def turnBy (name : String) (slots : List Slot) (reference : Variable) : Exec Grid Unit := do
  let detail := Detail.joinAll (reference.detail :: slots.map (·.detail))
  if let some f := Geometry.facing.choose (slots.map (·.type)) then
    produceAs f.type detail slots fun args out mask =>
      return f.fill name (args ++ [reference.toValue]) out mask

theorem together_faceForward (hi : i < n) (h : Working n i [] [] s t) (j : Instruction) :
    Together (faceForward j) s (faceForward j) t fun _ s' _ t' => Working n i [] [] s' t' := by
  unfold faceForward
  refine (together_pop h j 2).bind fun slots s' slots' t' h' => ?_
  rw [together_environment_bind]
  have hreference := (h'.1.graphics .geometricNormal).value
  have hdetails := details_eq h'.1.hand
  have htypes := types_eq h'.1.hand
  -- the grid has every graphics variable
  show Together (turnBy j.name slots (s'.host.env.graphics.get .geometricNormal)) s'
    (turnBy j.name slots' (t'.host.env.graphics.get .geometricNormal)) t' _
  unfold turnBy
  dsimp only
  rw [← htypes, ← hdetails, ← hreference.detail]
  obtain ⟨f, hf⟩ : ∃ f, Geometry.facing.choose (slots.map (·.type)) = some f := by
    obtain ⟨slot, rest, rfl⟩ := List.exists_cons_of_length_eq_add_one h'.2
    exact ⟨_, rfl⟩
  rw [hf]
  refine together_produceAs_fill hi h'.1 f j.name (.cons hreference.weaken .nil) fun hu => ?_
  have hall := Detail.uniform_of_joinAll hu
  refine ⟨fun slot hslot => hall _ (.tail _ (List.mem_map_of_mem hslot)), ?_⟩
  simpa using hall _ (.head _)

theorem together_dup (h : Working n i [] [] s t) (j : Instruction) :
    Together (dup j) s (dup j) t fun _ s' _ t' => Working n i [] [] s' t' := by
  have hstack := h.stack
  unfold dup
  rw [together_machine_bind]
  generalize s.machine.stack = stack at hstack
  generalize t.machine.stack = stack' at hstack
  cases hstack with
  | nil => rfl
  | cons hv _ =>
    dsimp only
    rw [together_value_bind, ← hv.type, ← hv.detail]
    exact together_pushData h (hv.data rfl rfl)

theorem together_modifyStates (h : Working n i [] [] s t) {f g : RunningStates → RunningStates}
    (hfg : (f s.host.env.states).SamePoint n i (g t.host.env.states))
    (hlive : s.machine.stack = [] ∨ (f s.host.env.states).running.get i = s.Runs i) :
    Together (do modifyStates f; return none) s (do modifyStates g; return none) t
      fun (a : Option Nat) s' (b : Option Nat) t' => a = none ∧ b = none ∧ SamePoint n i s' t' :=
  ⟨rfl, rfl, h.setStates hfg hlive⟩

theorem together_setCurrent (hi : i < n) (h : Working n i [] [] s t) (j : Instruction) :
    Together (setCurrent j) s (setCurrent j) t fun _ s' _ t' => SamePoint n i s' t' := by
  unfold setCurrent
  refine (together_popValue h j).bind fun v s' w t' hv => ?_
  refine hv.2.setStates (hv.2.states.setCurrent hi fun hrun => ?_) (.inr rfl)
  exact congrArg Scalar.holds (hv.1.get hrun .float)

theorem together_leaveScope (h : Working n i [] [] s t) (j : Instruction)
    (hempty : s.machine.stack = []) :
    Together (leaveScope j) s (leaveScope j) t fun _ s' _ t' => SamePoint n i s' t' := by
  have hpop := h.states.pop?
  unfold leaveScope
  rw [together_environment_bind, Grid.environment_states, Grid.environment_states]
  generalize s.host.env.states.pop? = r at hpop ⊢
  generalize t.host.env.states.pop? = r' at hpop ⊢
  cases hpop with
  | none => rfl
  | some hr => exact h.setStates hr (.inl hempty)

/-- Scopes and conditions. Where the instruction may let a point run that did not, no operand is
left. -/
theorem together_flow (hi : i < n) (h : Working n i [] [] s t) (j : Instruction) {f : Flow}
    (hf : (Opcode.flow f).isJump = false)
    (hempty : (Opcode.flow f).switches = true → s.machine.stack = []) :
    Together (flow j f) s (flow j f) t
      fun a s' b t' => a = none ∧ b = none ∧ SamePoint n i s' t' := by
  cases f with
  | enterScope => exact together_modifyStates h h.states.push (.inr rfl)
  | leaveScope =>
    exact (together_leaveScope h j (hempty rfl)).bind fun _ _ _ _ h' => ⟨rfl, rfl, h'⟩
  | selectCurrent => exact together_modifyStates h h.states.select (.inl (hempty rfl))
  | invertScope => exact together_modifyStates h (h.states.invert hi) (.inl (hempty rfl))
  | clearCurrent => exact together_modifyStates h h.states.clearCurrent (.inr rfl)
  | setCurrent => exact (together_setCurrent hi h j).bind fun _ _ _ _ h' => ⟨rfl, rfl, h'⟩
  | jumpNoCurrent | jumpAllCurrent | jumpNoRunning | jumpAllRunning | jumpFalse | jumpTrue
  | jump => cases hf

theorem together_dispatch (hi : i < n) (h : Working n i [] [] s t) (j : Instruction)
    (hj : j.code.isPointwise = true) (hempty : j.code.switches = true → s.machine.stack = []) :
    Together (dispatch j) s (dispatch j) t
      fun a s' b t' => a = none ∧ b = none ∧ SamePoint n i s' t' := by
  have hgo {x y : Exec Grid Unit}
      (hxy : Together x s y t fun _ s' _ t' => Working n i [] [] s' t') :
      Together (do x; return (none : Option Nat)) s (do y; return (none : Option Nat)) t
        fun a s' b t' => a = none ∧ b = none ∧ SamePoint n i s' t' :=
    hxy.bind fun _ _ _ _ h' => ⟨rfl, rfl, h'.toAtPoint⟩
  unfold dispatch
  split
  · exact hgo (together_applyRule hi h j _)
  rename_i hrule
  cases hc : j.code with
  | dup => exact hgo (together_dup h j)
  | drop =>
    exact (together_popOne h j).bind fun _ _ _ _ h' => ⟨rfl, rfl, h'.release.toAtPoint⟩
  | pushFloat => exact Together.ofExcept_bind fun x => hgo (together_pushUniform hi h .float x)
  | pushString => exact Together.ofExcept_bind fun x => hgo (together_pushUniform hi h .string x)
  | pushPoint =>
    exact Together.ofExcept_bind fun x => Together.ofExcept_bind fun y =>
      Together.ofExcept_bind fun z => hgo (together_pushUniform hi h .point ⟨x, y, z⟩)
  | pushVariable => exact hgo (together_pushVariable hi h j)
  | popVariable => exact hgo (together_popVariable hi h j)
  | geometry f =>
    rw [hc] at hrule
    cases f <;> first | exact hgo (together_faceForward hi h j) | cases hrule
  | flow f =>
    rw [hc] at hj hempty
    have hjump : (Opcode.flow f).isJump = false := by
      cases f <;> first | rfl | cases hj
    exact together_flow hi h j hjump hempty
  | math f =>
    -- a function of a fixed number of operands has a rule
    rw [hc] at hj hrule
    have hsome : (Opcode.math f).rule?.isSome = true := hj
    rw [hrule] at hsome
    cases hsome
  | nop | debugBreak | pushElement | popElement | string | service | illumination =>
    rw [hc] at hj
    cases hj
  | merge | buildTriple | buildColor | buildMatrix | ofFloat | tripleToColor | colorToTriple
  | arithmetic | dot | cross | negate | compare | and | or | not =>
    rw [hc] at hrule
    cases hrule

end Exec

end ShadingMachine
