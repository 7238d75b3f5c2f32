import ShadingMachine.Proofs.Structured.Alike

/-! Element-wise code over a grid. It leaves the mask and the states of the points alone, does at
each running point what it does at that point alone, and nothing at the others if it stores to
varying variables only. -/
namespace ShadingMachine

/-- The session with the mask under which an instruction works. -/
def Session.masked (s : Session Grid) : Session Grid :=
  { s with machine := { s.machine with mask := s.host.env.states.running } }

namespace Exec

open Session

variable {n i : Nat} {c : List Statement} {s t u : Session Grid}

section Preserves

variable {I : Session Grid → Prop}

theorem preserves_runCode (hI : Quiet I) (hp : ∀ w ∈ c, Permits I (w.instruction 0)) :
    Preserves I (runCode c) := by
  induction c with
  | nil => exact preserves_pure _
  | cons w c ih =>
    exact (preserves_dispatch hI _ (hp w (.head _))).bind fun _ =>
      ih fun v hv => hp v (.tail _ hv)

/-- An element-wise instruction changes nothing but a variable that it assigns to. -/
theorem permits_of_elementwise {j : Instruction} (hj : j.code.isElementwise = true)
    (hassign : ∀ source, j.code = .popVariable → ∀ r, j.variableRef = .ok r →
      Preserves I (assign j r source)) : Permits I j where
  assign source hcode r hr := by
    rcases hcode with hc | hc | hc
    · exact hassign source hc r hr
    · rw [hc] at hj
      cases hj
    · rw [hc] at hj
      cases hj
  storeElement _ _ _ hc := by
    rw [hc] at hj
    cases hj
  setLight _ _ _ _ hc := by
    rw [hc] at hj
    cases hj
  setStates _ _ hc := by
    rw [hc] at hj
    cases hj

end Preserves

/-- A session under a mask, with states of the points. -/
structure Under (m : Mask) (r : RunningStates) (s : Session Grid) : Prop where
  mask : s.machine.mask = m
  states : s.host.env.states = r

theorem quiet_under (m : Mask) (r : RunningStates) : Quiet (Under m r) where
  machine h hmask _ := ⟨hmask.trans h.mask, h.states⟩
  host h _ hstates := ⟨h.mask, hstates.trans h.states⟩

theorem permits_under (m : Mask) (r : RunningStates) {j : Instruction}
    (hj : j.code.isElementwise = true) : Permits (Under m r) j := by
  refine permits_of_elementwise hj fun source _ x _ => ?_
  refine (preserves_readVariable x).bind fun v => preserves_machine.bind fun _ => ?_
  split
  · cases x with
    | declared k => exact fun _ hs => ⟨hs.mask, hs.states⟩
    | graphics x => exact fun _ hs => ⟨hs.mask, hs.states⟩
  · exact preserves_warn (quiet_under m r) j _

/-- The mask and the states of the points stay through element-wise code. -/
theorem under_runCode (hc : ∀ w ∈ c, w.operation.code.isElementwise = true) (s : Session Grid) :
    Ends (runCode c) s (fun _ t => Under s.machine.mask s.host.env.states t) fun _ t =>
      Under s.machine.mask s.host.env.states t :=
  preserves_runCode (quiet_under _ _) (fun w hw => permits_under _ _ (hc w hw)) s ⟨rfl, rfl⟩

/-- The same code in two sessions, by induction on its statements. -/
theorem follows_runCode (h : s.Alike t) (hc : ∀ w ∈ c, w.operation.code.isElementwise = true) :
    Follows (runCode c) s (runCode c) t := by
  induction c generalizing s t with
  | nil => exact follows_pure h ()
  | cons w c ih =>
    exact (follows_dispatch h w 0 0 (hc w (.head _))).bind fun _ _ _ h' =>
      ih h' fun v hv => hc v (.tail _ hv)

/-- Over a grid and at one of its points, by induction on the statements. -/
theorem together_runCode (hi : i < n) (h : Working n i [] [] s t)
    (hc : ∀ w ∈ c, w.operation.code.isElementwise = true) :
    Together (runCode c) s (runCode c) t fun _ s' _ t' => Working n i [] [] s' t' := by
  induction c generalizing s t with
  | nil => exact h
  | cons w c ih =>
    have hw : (w.instruction 0).code.isElementwise = true := hc w (.head _)
    have hswitches : (w.instruction 0).code.switches = true → s.machine.stack = [] := fun hs => by
      generalize (w.instruction 0).code = code at hw hs
      cases code <;> first | cases hs | cases hw
    have hunder (u : Session Grid) := preserves_dispatch (quiet_under _ _) (w.instruction 0)
      (permits_under u.machine.mask u.host.env.states hw) u ⟨rfl, rfl⟩
    have hstep := (together_dispatch hi h (w.instruction 0)
      (Opcode.isPointwise_of_isElementwise hw) hswitches).and_ends (hunder s)
    refine (hstep.and_ends_right (hunder t)).bind fun _ s' _ t' h' => ?_
    obtain ⟨⟨⟨-, -, h'⟩, hs⟩, ht⟩ := h'
    refine ih { h' with mask := ?_, mask_get := ?_ } fun v hv => hc v (.tail _ hv)
    · rw [hs.mask, ht.mask]
      exact h.mask
    · unfold Runs
      rw [hs.mask, hs.states]
      exact h.mask_get

end Exec

namespace Session

variable {n i : Nat} {c : List Statement} {s u v : Session Grid}

/-- Sessions whose variables hold the same. -/
structure SameVariables (s t : Session Grid) : Prop where
  locals : t.machine.locals = s.machine.locals
  graphics : t.host.env.graphics = s.host.env.graphics

theorem sameVariables_masked : s.SameVariables s.masked := ⟨rfl, rfl⟩

theorem SameVariables.trans (h : s.SameVariables u) (h' : u.SameVariables v) : s.SameVariables v :=
  ⟨h'.locals.trans h.locals, h'.graphics.trans h.graphics⟩

theorem SameVariables.related {R : Variable → Variable → Prop} [IsPreorder Variable R]
    (h : s.SameVariables u) : s.Related R u := by
  refine ⟨?_, ?_⟩
  · rw [h.locals]
    exact refl_of (Locals.Related R) _
  · rw [h.graphics]
    exact refl_of (GraphicsState.Related R) _

theorem SameVariables.point_eq (h : s.SameVariables u) (i : Nat) : u.point i = s.point i := by
  unfold point
  rw [h.locals, h.graphics]

/-- Element-wise code that raises no error and ends with operands as said, on `n` points and
whatever the variables hold, as long as they are of the same kind. -/
structure Succeeds (n : Nat) (s : Session Grid) (c : List Statement) (leaves : List Slot → Prop) :
    Prop where
  elementwise : ∀ w ∈ c, w.operation.code.isElementwise = true
  ends : ∀ u : Session Grid, u.IsSized n → s.Related Variable.SameKind u →
    Exec.Ends (Exec.runCode c) u.masked (fun _ t => leaves t.machine.stack) fun _ _ => False

/-- Code that leaves no operand and stores to varying scalar variables only. -/
structure IsNeutral (n : Nat) (s : Session Grid) (c : List Statement) : Prop
    extends Succeeds n s c (· = []) where
  stores : ∀ w ∈ c, w.operation.code = .popVariable → ∃ r x,
    (w.instruction 0).variableRef = .ok r ∧ s.scalar? r = some x ∧ x.detail = .varying

/-- Code that leaves one float and stores nothing. -/
structure IsCondition (n : Nat) (s : Session Grid) (c : List Statement) : Prop
    extends Succeeds n s c fun stack => ∃ slot, stack = [slot] ∧ slot.type = .float where
  stores : ∀ w ∈ c, w.operation.code ≠ .popVariable

theorem Succeeds.of_related {leaves : List Slot → Prop} (h : Succeeds n s c leaves)
    (hsu : s.Related Variable.SameKind u) : Succeeds n u c leaves :=
  ⟨h.elementwise, fun t ht htu => h.ends t ht (trans_of (Related Variable.SameKind) hsu htu)⟩

theorem IsNeutral.of_related (h : IsNeutral n s c) (hsu : s.Related Variable.SameKind u) :
    IsNeutral n u c where
  toSucceeds := h.toSucceeds.of_related hsu
  stores w hw hcode := by
    obtain ⟨r, x, hr, hx, hvarying⟩ := h.stores w hw hcode
    obtain ⟨y, hy, hxy⟩ := hsu.scalar? hx
    exact ⟨r, y, hr, hy, hxy.value.detail.trans hvarying⟩

theorem IsCondition.of_related (h : IsCondition n s c) (hsu : s.Related Variable.SameKind u) :
    IsCondition n u c := ⟨h.toSucceeds.of_related hsu, h.stores⟩

theorem Succeeds.exists_ok {leaves : List Slot → Prop} (h : Succeeds n s c leaves)
    (hs : s.IsSized n) :
    ∃ u, Exec.runCode c s.masked = .ok () u ∧ leaves u.machine.stack := by
  have hends := h.ends s hs (refl_of (Related Variable.SameKind) s)
  unfold Exec.Ends at hends
  cases hu : Exec.runCode c s.masked with
  | ok _ u =>
    rw [hu] at hends
    exact ⟨u, rfl, hends⟩
  | error e u =>
    rw [hu] at hends
    exact hends.elim

/-- The session of a point, under the mask. -/
theorem IsSized.working (hs : s.IsSized n) (i : Nat) :
    Working n i [] [] s.masked (s.atPoint i).masked :=
  { hs.samePoint i with
    mask := (hs.samePoint i).states.running
    mask_get := rfl }

/-- What runs at a point alone is the session of the point. -/
theorem alike_point (hi : s.Runs i = true) :
    (s.point i).session.Alike (s.atPoint i).masked where
  locals := rfl
  stack := rfl
  pools := rfl
  gridSize := rfl
  mask := by
    show Mask.fill 1 (s.host.env.states.running.get i) = .full 1
    rw [show s.host.env.states.running.get i = true from hi]
    rfl
  graphics := rfl
  resolution := rfl

/-- Whatever a point is, code that succeeds on the grid has worked there as well. -/
theorem IsSized.working_runCode (hs : s.IsSized n) (hi : i < n)
    (hc : ∀ w ∈ c, w.operation.code.isElementwise = true)
    (hu : Exec.runCode c s.masked = .ok () u) :
    ∃ t, Exec.runCode c (s.atPoint i).masked = .ok () t ∧ Working n i [] [] u t := by
  have htogether := Exec.together_runCode hi (hs.working i) hc
  unfold Exec.Together at htogether
  rw [hu] at htogether
  cases ht : Exec.runCode c (s.atPoint i).masked with
  | ok _ t =>
    rw [ht] at htogether
    exact ⟨t, rfl, htogether⟩
  | error e t =>
    rw [ht] at htogether
    exact htogether.elim

/-- What code leaves at a running point is what it leaves at the point alone, of the variables as of
the operands. -/
theorem IsSized.runCode_point (hs : s.IsSized n) (hi : i < n) (hruns : s.Runs i = true)
    (hc : ∀ w ∈ c, w.operation.code.isElementwise = true)
    (hu : Exec.runCode c s.masked = .ok () u)
    (hv : Exec.runCode c (s.point i).session = .ok () v) :
    u.point i = ⟨v.machine.locals, v.host.env.graphics⟩ ∧
      List.Forall₂ (SameSlot n i true u.machine.pools v.machine.pools)
        u.machine.stack v.machine.stack := by
  obtain ⟨t, ht, hwork⟩ := hs.working_runCode hi hc hu
  obtain ⟨t', ht', halike⟩ := Exec.follows_runCode (alike_point hruns) hc () v hv
  obtain rfl : t = t' := by
    rw [ht] at ht'
    cases ht'
    rfl
  have hstays := (Exec.under_runCode hc s.masked).of_ok hu
  have hlive : u.Runs i = true := by
    unfold Runs
    rw [hstays.states]
    exact hruns
  have hstack := hwork.stack
  rw [hlive, halike.stack, halike.pools] at hstack
  refine ⟨?_, hstack⟩
  rw [hwork.point_eq, halike.locals, halike.graphics]

end Session

namespace Exec

open Session

variable {n i : Nat} {c : List Statement} {s : Session Grid}

/-- Stores to varying variables leave a point that does not run alone. -/
theorem related_runCode {D : Detail → Prop} (hc : s.IsNeutral n c)
    (hi : ∀ d, D d → i ∉ s.host.env.states.running.ones) :
    Ends (runCode c) s.masked (fun _ t => s.Related (Variable.KeepsAt D i) t) fun _ t =>
      s.Related (Variable.KeepsAt D i) t := by
  have hpermits : ∀ w ∈ c, Permits (Kept D i s.host.env.states.running s) (w.instruction 0) := by
    refine fun w hw => permits_of_elementwise (hc.elementwise w hw) fun source hcode r hr => ?_
    obtain ⟨r', x, hr', hx, hvarying⟩ := hc.stores w hw hcode
    obtain rfl : r' = r := by
      rw [hr'] at hr
      cases hr
      rfl
    refine preserves_assign source fun t y ht hy hd => ⟨?_, hi _ hd⟩
    obtain ⟨y', hy', hxy⟩ := ht.related.scalar? hx
    obtain rfl : y' = y := Option.some.inj (hy'.symm.trans hy)
    exact hxy.value.detail.trans hvarying
  have hstart : Kept D i s.host.env.states.running s s.masked :=
    ⟨rfl, sameVariables_masked.related⟩
  exact (preserves_runCode (quiet_kept D i _ s) hpermits s.masked hstart).imp
    (fun _ _ h => h.related) fun _ _ h => h.related

/-- Code that stores nothing leaves the variables as they are. -/
theorem variables_runCode (hc : s.IsCondition n c) :
    Ends (runCode c) s.masked (fun _ t => s.SameVariables t) fun _ _ => True := by
  have hquiet : Quiet s.SameVariables :=
    ⟨fun h _ hlocals => ⟨hlocals.trans h.locals, h.graphics⟩,
      fun h hgraphics _ => ⟨h.locals, hgraphics.trans h.graphics⟩⟩
  have hpermits : ∀ w ∈ c, Permits s.SameVariables (w.instruction 0) := fun w hw =>
    permits_of_elementwise (hc.elementwise w hw) fun _ hcode => absurd hcode (hc.stores w hw)
  exact (preserves_runCode hquiet hpermits s.masked sameVariables_masked).imp (fun _ _ h => h)
    fun _ _ _ => trivial

end Exec

namespace Point

variable {c : List Statement} {p q : Point} {b : Bool}

theorem exists_of_after? (h : p.after? c = some q) :
    ∃ v, Exec.runCode c p.session = .ok () v ∧ ⟨v.machine.locals, v.host.env.graphics⟩ = q := by
  unfold after? at h
  split at h
  · rename_i v hv
    exact ⟨v, hv, Option.some.inj h⟩
  · cases h

theorem exists_of_holds? (h : p.holds? c = some b) :
    ∃ v slot, Exec.runCode c p.session = .ok () v ∧ v.machine.stack = [slot] ∧
      Scalar.holds ((v.machine.pools.value slot).getFloat 0) = b := by
  unfold holds? at h
  split at h
  · rename_i v hv
    split at h
    · rename_i slot hslot
      exact ⟨v, slot, hv, hslot, Option.some.inj h⟩
    · cases h
  · cases h

end Point

end ShadingMachine
