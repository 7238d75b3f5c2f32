import ShadingMachine.Proofs.Grid.Operands
import ShadingMachine.Proofs.Structured.Block

/-! What element-wise code reads of a session: the locals and the graphics variables, the operands,
the mask and the size of the grid. Where it stands, which program it belongs to and which scopes are
entered makes no difference, so that code that succeeds in one session succeeds in every session
alike. -/
namespace ShadingMachine

/-- Sessions on grids of the same size, with the same variables, operands and mask. -/
structure Session.Alike (s t : Session Grid) : Prop where
  locals : t.machine.locals = s.machine.locals
  stack : t.machine.stack = s.machine.stack
  pools : t.machine.pools = s.machine.pools
  gridSize : t.machine.gridSize = s.machine.gridSize
  mask : t.machine.mask = s.machine.mask
  graphics : t.host.env.graphics = s.host.env.graphics
  resolution : t.host.env.resolution = s.host.env.resolution

namespace Exec

variable {α β : Type}

theorem bind_eq_ok {ε : Type} {x : Exec ε α} {f : α → Exec ε β} {s t : Session ε} {b : β} :
    (x >>= f) s = .ok b t ↔ ∃ a s', x s = .ok a s' ∧ f a s' = .ok b t := by
  simp only [Bind.bind, EStateM.bind]
  cases x s <;> simp

/-- If the first computation succeeds so does the second, with the same value, and the sessions stay
alike. -/
def Follows (x : Exec Grid α) (s : Session Grid) (y : Exec Grid α) (t : Session Grid) : Prop :=
  ∀ a s', x s = .ok a s' → ∃ t', y t = .ok a t' ∧ s'.Alike t'

variable {s t : Session Grid}

theorem Follows.bind {x y : Exec Grid α} {f g : α → Exec Grid β} (hx : Follows x s y t)
    (hf : ∀ a s' t', s'.Alike t' → Follows (f a) s' (g a) t') :
    Follows (x >>= f) s (y >>= g) t := by
  intro b s'' hb
  obtain ⟨a, s', ha, hfa⟩ := bind_eq_ok.mp hb
  obtain ⟨t', ha', halike⟩ := hx a s' ha
  obtain ⟨t'', hga, halike'⟩ := hf a s' t' halike b s'' hfa
  exact ⟨t'', bind_eq_ok.mpr ⟨a, t', ha', hga⟩, halike'⟩

theorem follows_pure (h : s.Alike t) (a : α) : Follows (pure a) s (pure a) t := by
  rintro _ _ ⟨⟩
  exact ⟨t, rfl, h⟩

theorem follows_throw (e : ExecError) (y : Exec Grid α) : Follows (throw e) s y t :=
  fun _ _ h => nomatch h

theorem follows_throw_bind (e : ExecError) (f : α → Exec Grid β) (y : Exec Grid β) :
    Follows (throw e >>= f) s y t := fun _ _ h => nomatch h

theorem follows_ofExcept_bind {x y : Except ExecError α} {f g : α → Exec Grid β}
    (hxy : ∀ a, x = .ok a → y = .ok a) (h : ∀ a, Follows (f a) s (g a) t) :
    Follows (ofExcept x >>= f) s (ofExcept y >>= g) t := by
  cases x with
  | ok a =>
    rw [hxy a rfl]
    exact h a
  | error e => exact follows_throw_bind e f _

theorem follows_machine_bind {f g : Machine → Exec Grid β} :
    Follows (machine >>= f) s (machine >>= g) t ↔ Follows (f s.machine) s (g t.machine) t := Iff.rfl

theorem follows_environment_bind {f g : Grid → Exec Grid β} :
    Follows (environment >>= f) s (environment >>= g) t ↔
      Follows (f s.host.env) s (g t.host.env) t := Iff.rfl

theorem follows_modifyMachine {f g : Machine → Machine}
    (h : Session.Alike { s with machine := f s.machine } { t with machine := g t.machine }) :
    Follows (modifyMachine f) s (modifyMachine g) t := by
  rintro _ _ ⟨⟩
  exact ⟨_, rfl, h⟩

theorem follows_release (h : s.Alike t) (slots : List Slot) :
    Follows (release slots) s (release slots) t :=
  follows_modifyMachine { h with pools := by rw [h.pools] }

/-- An error that is caught and thrown again is no success. -/
theorem follows_attempt_release {x y : Exec Grid Unit} (hxy : Follows x s y t) (slots : List Slot) :
    Follows (do let done ← attempt x; release slots; ofExcept done) s
      (do let done ← attempt y; release slots; ofExcept done) t := by
  intro _ s'' hs
  obtain ⟨done, s', hdone, hrest⟩ := bind_eq_ok.mp hs
  cases hx : x s with
  | error e u =>
    simp only [attempt, hx, EStateM.Result.ok.injEq] at hdone
    obtain ⟨rfl, rfl⟩ := hdone
    cases hrest
  | ok a u =>
    simp only [attempt, hx, EStateM.Result.ok.injEq] at hdone
    obtain ⟨rfl, rfl⟩ := hdone
    obtain ⟨t', ht', h'⟩ := hxy a _ hx
    obtain ⟨t'', ht'', h''⟩ := (follows_release h' slots).bind
      (fun _ _ _ h₁ => follows_pure h₁ a) _ _ hrest
    exact ⟨t'', bind_eq_ok.mpr ⟨.ok a, t', by simp only [attempt, ht'], ht''⟩, h''⟩

section Operands

variable (h : s.Alike t)
include h

theorem follows_value (slot : Slot) : Follows (value slot) s (value slot) t := by
  rintro _ _ ⟨⟩
  refine ⟨t, ?_, h⟩
  show EStateM.Result.ok (t.machine.pools.value slot) t = _
  rw [h.pools]

theorem follows_popOne (j j' : Instruction) : Follows (popOne j) s (popOne j') t := by
  unfold popOne
  rw [follows_machine_bind, h.stack]
  split
  · exact follows_throw _ _
  · refine (follows_modifyMachine ?_).bind fun _ _ _ h' => follows_pure h' _
    exact { h with stack := rfl }

theorem follows_pop (j j' : Instruction) (n : Nat) : Follows (pop j n) s (pop j' n) t := by
  unfold pop
  rw [follows_machine_bind, h.stack]
  dsimp only
  split
  · exact follows_throw_bind _ _ _
  · refine (follows_modifyMachine { h with stack := ?_ }).bind fun _ _ _ h' => follows_pure h' _
    rw [h.stack]

theorem follows_allocate (type : ValueType) (detail : Detail) :
    Follows (allocate type detail) s (allocate type detail) t := by
  rintro _ _ ⟨⟩
  refine ⟨{ t with machine := { t.machine with
    pools := (s.machine.pools.allocate type detail s.machine.gridSize).2 } }, ?_,
    { h with pools := rfl }⟩
  rw [← h.pools, ← h.gridSize]
  rfl

theorem follows_store (slot : Slot) (d : Data) : Follows (store slot d) s (store slot d) t :=
  follows_modifyMachine { h with pools := by rw [h.pools] }

theorem follows_push (slot : Slot) : Follows (push slot) s (push slot) t :=
  follows_modifyMachine { h with stack := by rw [h.stack] }

theorem follows_pushUniform (type : ValueType) (x : type.storage.Elem) :
    Follows (pushUniform type x) s (pushUniform type x) t :=
  (follows_allocate h type .uniform).bind fun slot _ _ h₁ => (follows_value h₁ slot).bind
    fun _ _ _ h₂ => (follows_store h₂ slot _).bind fun _ _ _ h₃ => follows_push h₃ slot

theorem follows_pushData (type : ValueType) (detail : Detail) (d : Data) :
    Follows (pushData type detail d) s (pushData type detail d) t :=
  (follows_allocate h type detail).bind fun slot _ _ h₁ => (follows_store h₁ slot d).bind
    fun _ _ _ h₂ => follows_push h₂ slot

theorem follows_pushCopy (v : Value) : Follows (pushCopy v) s (pushCopy v) t := by
  unfold pushCopy
  rw [follows_machine_bind, h.gridSize]
  exact follows_pushData h v.type v.detail _

theorem follows_readVariable (r : VariableRef) :
    Follows (readVariable r) s (readVariable r) t := by
  cases r with
  | declared k =>
    unfold readVariable
    rw [follows_machine_bind, h.locals]
    cases s.machine.locals.scalar? k with
    | ok v => exact follows_pure h v
    | error e => exact follows_throw e _
  | graphics x =>
    show Follows (pure (s.host.env.graphics.get x)) s (pure (t.host.env.graphics.get x)) t
    rw [h.graphics]
    exact follows_pure h _

theorem follows_writeVariable (r : VariableRef) (v : Variable) :
    Follows (writeVariable r v) s (writeVariable r v) t := by
  cases r with
  | declared k =>
    rintro _ _ ⟨⟩
    refine ⟨_, rfl, { h with locals := ?_ }⟩
    show t.machine.locals.setIfInBounds k _ = s.machine.locals.setIfInBounds k _
    rw [h.locals]
  | graphics x =>
    rintro _ _ ⟨⟩
    refine ⟨_, rfl, { h with graphics := ?_ }⟩
    show t.host.env.graphics.set x v = s.host.env.graphics.set x v
    rw [h.graphics]

theorem follows_assign (j j' : Instruction) (r : VariableRef) (source : Value) :
    Follows (assign j r source) s (assign j' r source) t := by
  unfold assign
  refine (follows_readVariable h r).bind fun v s' t' h' => ?_
  rw [follows_machine_bind, h'.mask]
  split
  · exact follows_writeVariable h' r _
  · rintro _ _ ⟨⟩
    exact ⟨_, rfl, { h' with }⟩

theorem follows_produceAs (type : ValueType) (detail : Detail) (args : List Slot)
    (f : List Value → Value → Mask → Except ExecError Value) :
    Follows (produceAs type detail args fun args out mask => return f args out mask) s
      (produceAs type detail args fun args out mask => return f args out mask) t := by
  unfold Follows
  rw [produceAs_eq, produceAs_eq, h.pools, h.gridSize, h.mask]
  dsimp only
  intro _ s' hs
  split at hs
  · cases hs
    refine ⟨_, rfl, { h with stack := ?_, pools := ?_ }⟩
    · simp only [Machine.put, h.pools, h.gridSize, h.stack]
    · simp only [Machine.put, h.pools, h.gridSize]
  · cases hs

variable (w : Statement) (k l : Nat)

omit h in
/-- What stands behind the opcode is the same. -/
theorem operand_eq_ok (m : Nat) (expected : String) (read? : Element → Option α) {a : α}
    (ha : (w.instruction k).operand m expected read? = .ok a) :
    (w.instruction l).operand m expected read? = .ok a := by
  have hoperands (p : Nat) : (w.instruction p).operands = w.operands := rfl
  unfold Instruction.operand at ha ⊢
  rw [hoperands] at ha ⊢
  split at ha
  · split at ha
    · exact ha
    · cases ha
  · cases ha

theorem follows_applyRule (r : Rule) :
    Follows (applyRule (w.instruction k) r) s (applyRule (w.instruction l) r) t := by
  refine (follows_pop h _ _ r.arity).bind fun slots s' t' h' => ?_
  dsimp only
  split
  · exact follows_produceAs h' _ _ slots _
  · exact (follows_release h' slots).bind fun _ _ _ _ => follows_throw _ _

theorem follows_faceForward :
    Follows (faceForward (w.instruction k)) s (faceForward (w.instruction l)) t := by
  refine (follows_pop h _ _ 2).bind fun slots s' t' h' => ?_
  rw [follows_environment_bind]
  show Follows (turnBy w.name slots (s'.host.env.graphics.get .geometricNormal)) s'
    (turnBy w.name slots (t'.host.env.graphics.get .geometricNormal)) t'
  rw [h'.graphics]
  unfold turnBy
  dsimp only
  split
  · exact follows_produceAs h' _ _ slots _
  · exact follows_pure h' _

theorem follows_dup : Follows (dup (w.instruction k)) s (dup (w.instruction l)) t := by
  unfold dup
  rw [follows_machine_bind, h.stack]
  split
  · exact follows_throw _ _
  · exact (follows_value h _).bind fun v _ _ h' => follows_pushData h' v.type v.detail v.data

/-- An element-wise statement does the same wherever it stands. -/
theorem follows_dispatch (hw : w.operation.code.isElementwise = true) :
    Follows (dispatch (w.instruction k)) s (dispatch (w.instruction l)) t := by
  have hgo {s' t' : Session Grid} {x y : Exec Grid Unit} (hxy : Follows x s' y t') :
      Follows (do x; return (none : Option Nat)) s' (do y; return (none : Option Nat)) t' :=
    hxy.bind fun _ _ _ h' => follows_pure h' none
  have hcode (p : Nat) : (w.instruction p).code = w.operation.code := rfl
  unfold dispatch
  rw [hcode, hcode]
  split
  · exact hgo (follows_applyRule h w k l _)
  rename_i hrule
  cases hc : w.operation.code with
  | dup => exact hgo (follows_dup h w k l)
  | drop =>
    exact (follows_popOne h _ _).bind fun slot _ _ h' => hgo (follows_release h' [slot])
  | pushFloat =>
    exact follows_ofExcept_bind (fun _ => operand_eq_ok w k l _ _ _) fun x =>
      hgo (follows_pushUniform h .float x)
  | pushString =>
    exact follows_ofExcept_bind (fun _ => operand_eq_ok w k l _ _ _) fun x =>
      hgo (follows_pushUniform h .string x)
  | pushPoint =>
    exact follows_ofExcept_bind (fun _ => operand_eq_ok w k l _ _ _) fun x =>
      follows_ofExcept_bind (fun _ => operand_eq_ok w k l _ _ _) fun y =>
      follows_ofExcept_bind (fun _ => operand_eq_ok w k l _ _ _) fun z =>
      hgo (follows_pushUniform h .point ⟨x, y, z⟩)
  | pushVariable =>
    exact hgo (follows_ofExcept_bind (fun _ => operand_eq_ok w k l _ _ _) fun r =>
      (follows_readVariable h r).bind fun v _ _ h' => follows_pushCopy h' v.toValue)
  | popVariable =>
    exact hgo (follows_ofExcept_bind (fun _ => operand_eq_ok w k l _ _ _) fun r =>
      (follows_popOne h _ _).bind fun slot _ _ h' => follows_attempt_release
        ((follows_value h' slot).bind fun v _ _ h'' => follows_assign h'' _ _ r v) [slot])
  | geometry f =>
    rw [hc] at hrule
    cases f <;> first | exact hgo (follows_faceForward h w k l) | cases hrule
  | flow f =>
    rw [hc] at hw
    cases hw
  | math f =>
    rw [hc] at hw hrule
    have hsome : (Opcode.math f).rule?.isSome = true := hw
    rw [hrule] at hsome
    cases hsome
  | nop | debugBreak | pushElement | popElement | string | service | illumination =>
    rw [hc] at hw
    cases hw
  | merge | buildTriple | buildColor | buildMatrix | ofFloat | tripleToColor | colorToTriple
  | arithmetic | dot | cross | negate | compare | and | or | not =>
    rw [hc] at hrule
    cases hrule

end Operands

end Exec

end ShadingMachine
