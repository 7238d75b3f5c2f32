import ShadingMachine.Pattern.Parse
import ShadingMachine.Proofs.Execution.Access
import ShadingMachine.Proofs.Frame.Arrays
import ShadingMachine.Proofs.Frame.Instruction

/-! A point that does not run when an instruction starts keeps what it has. Every store is under the
mask of the running points; only a uniform variable, which is the same at every point, is written
whatever the mask. -/
namespace ShadingMachine

/-- The scalar variable that an operand names, if there is one. -/
def Session.scalar? (s : Session Grid) : VariableRef → Option Variable
  | .declared k => (s.machine.locals.scalar? k).toOption
  | .graphics x => some (s.host.env.graphics.get x)

namespace Exec

/-- Under the mask, with the variables at a point as they were in a session before. -/
structure Kept (D : Detail → Prop) (i : Nat) (mask : Mask) (s t : Session Grid) : Prop where
  mask : t.machine.mask = mask
  related : s.Related (Variable.KeepsAt D i) t

variable {D : Detail → Prop} {i : Nat} {mask : Mask} {s t : Session Grid}

theorem quiet_kept (D : Detail → Prop) (i : Nat) (mask : Mask) (s : Session Grid) :
    Quiet (Kept D i mask s) where
  machine h hmask hlocals :=
    ⟨hmask.trans h.mask, hlocals ▸ h.related.locals, h.related.graphics⟩
  host h hgraphics _ := ⟨h.mask, h.related.locals, hgraphics ▸ h.related.graphics⟩

theorem Kept.setLocal (h : Kept D i mask s t) {k : Nat} {l l' : Local}
    (hk : t.machine.locals[k]? = some l) (hl : l.Related (Variable.KeepsAt D i) l') :
    Kept D i mask s { t with machine := { t.machine with
      locals := t.machine.locals.setIfInBounds k l' } } where
  mask := h.mask
  related :=
    { h.related with
      locals := trans_of (Locals.Related _) h.related.locals (Locals.related_set hk hl) }

theorem Kept.setGraphics (h : Kept D i mask s t) {x : GraphicsVariable} {w : Variable}
    (hw : (t.host.env.graphics.get x).KeepsAt D i w) :
    Kept D i mask s { t with host := { t.host with env := { t.host.env with
      graphics := t.host.env.graphics.set x w } } } where
  mask := h.mask
  related :=
    { h.related with
      graphics :=
        trans_of (GraphicsState.Related _) h.related.graphics (GraphicsState.related_set hw) }

/-- An assignment to a variable that varies, or that may change. -/
theorem preserves_assign {j : Instruction} {r : VariableRef} (source : Value)
    (hr : ∀ t v, Kept D i mask s t → t.scalar? r = some v → D v.detail →
      v.detail = .varying ∧ i ∉ mask.ones) :
    Preserves (Kept D i mask s) (assign j r source) := by
  intro t ht
  have hwarn (text : String) := preserves_warn (quiet_kept D i mask s) j text t ht
  have hread := hr t
  unfold assign
  rw [ends_bind]
  cases r with
  | declared k =>
    simp only [readVariable, ends_bind, ends_machine, ends_ofExcept]
    refine ⟨fun v hv => ?_, fun _ _ => ht⟩
    have hv' := hread v ht (by simp [Session.scalar?, hv, Except.toOption])
    split
    · rename_i w hw
      rw [ht.mask] at hw
      exact ht.setLocal (getElem?_of_scalar? hv) (.scalar (Variable.keepsAt_of_assign hw hv'))
    · exact hwarn _
  | graphics x =>
    have hv' := hread (t.host.env.graphics.get x) ht rfl
    have hget : readVariable (.graphics x) t = .ok (t.host.env.graphics.get x) t := rfl
    refine ends_of_ok hget ?_
    rw [ends_bind, ends_machine]
    split
    · rename_i w hw
      rw [ht.mask] at hw
      exact ht.setGraphics (Variable.keepsAt_of_assign hw hv')
    · exact hwarn _

theorem preserves_storeElement (hD : ∀ d, D d → d = .varying ∧ i ∉ mask.ones) {j : Instruction}
    (r : VariableRef) (source index : Value) :
    Preserves (Kept D i mask s) (storeElement j r source index) := by
  intro t ht
  have hwarn (text : String) := preserves_warn (quiet_kept D i mask s) j text t ht
  cases r with
  | graphics x => exact ht
  | declared k =>
    simp only [storeElement, readArray, ends_bind, ends_machine, ends_ofExcept, ends_pure]
    refine ⟨fun a ha => ?_, fun _ _ => ht⟩
    have hk := getElem?_of_array? ha
    split
    · simp only [ends_bind, ends_ofExcept]
      refine ⟨fun p _ => ?_, fun _ _ => ht⟩
      split
      · rename_i v hv
        split
        · rename_i w hw
          rw [ht.mask] at hw
          exact ht.setLocal hk (.array (VariableArray.related_set hv
            (Variable.keepsAt_of_assign hw (hD v.detail))))
        · exact hwarn _
      · exact ht
    split
    · exact hwarn _
    split
    · exact hwarn _
    · simp only [writeArray, ends_bind, ends_modifyMachine, ends_ofExcept]
      rw [← ht.mask] at hD
      have hset := ht.setLocal hk (.array (a.keepsAt_scatter hD index source))
      exact ⟨fun _ _ => hset, fun _ _ => hset⟩

theorem permits_kept (hD : ∀ d, D d → d = .varying ∧ i ∉ mask.ones) (j : Instruction) :
    Permits (Kept D i mask s) j where
  assign source _ _ _ := preserves_assign source fun _ v _ _ => hD v.detail
  storeElement r source index _ := preserves_storeElement hD r source index
  setLight _ x storage light _ t ht := by
    rw [← ht.mask] at hD
    exact ht.setGraphics (Variable.keepsAt_mapValue (Value.keepsAt_write (hD _) storage light))
  setStates _ _ _ _ ht := ⟨ht.mask, ht.related.locals, ht.related.graphics⟩

theorem kept_fetched (D : Detail → Prop) (i : Nat) (s : Session Grid) (j : Instruction) :
    Kept D i s.host.env.states.running s (s.fetched j) where
  mask := rfl
  related :=
    { locals := refl_of (Locals.Related (Variable.KeepsAt D i)) _
      graphics := by
        have henv : (s.fetched j).host.env = s.host.env := by
          unfold Session.fetched
          split <;> rfl
        rw [henv]
        exact refl_of (GraphicsState.Related (Variable.KeepsAt D i)) _ }

/-- Whatever the next instruction is and however it ends, every varying variable has at a point that
does not run what it had. -/
theorem related_step (hi : i ∉ s.host.env.states.running.ones) :
    s.Related (Variable.KeepsAt (· = .varying) i) (step.after s) := by
  rw [← ends_iff_after (P := s.Related (Variable.KeepsAt (· = .varying) i))]
  have hrefl := refl_of (Session.Related (Variable.KeepsAt (· = .varying) i)) s
  refine ends_step hrefl (fun _ _ => hrefl) fun j _ => ?_
  have hkept := kept_fetched (· = .varying) i s j
  refine (preserves_dispatch (quiet_kept _ i _ s) j (permits_kept (fun _ hd => ⟨hd, hi⟩) j) _
    hkept).imp (fun target? t ht => ?_) fun _ t ht => ht.related
  rw [ends_proceed]
  split
  · exact ht.related
  · split
    · exact ht.related
    · exact ⟨ht.related.locals, ht.related.graphics⟩

end Exec

/-- A varying variable keeps what it has at the point. -/
theorem Variable.KeepsAt.unchanged {i : Nat} {v w : Variable} (h : v.KeepsAt (· = .varying) i w)
    (hv : v.detail = .varying) : v.UnchangedAt i w :=
  ⟨⟨h.value.toSameKind, fun _ => h.value.get hv⟩, h.name, h.param, h.output⟩

/-- No instruction touches a point that does not run when it starts. In every machine that a program
comes to and on every grid, a step, also one that fails, leaves the element at the point unchanged
in every varying scalar, in every element of every varying array, and in every varying variable of
the graphics state. A point of the mask does not run if its bit is clear (`Mask.mem_ones`), and one
outside the mask never does. -/
theorem Machine.Reached.unchanged_at_idle_point {p : Program} {c : Config} {m : Machine}
    (hm : Reached p c m) (host : Host Grid) {i : Nat} (hi : i ∉ host.env.states.running.ones) :
    let t : Session Grid := Exec.step.after ⟨m, host⟩
    (∀ (k : Nat) v, m.locals[k]? = some (.scalar v) → v.detail = .varying →
      ∃ w, t.machine.locals[k]? = some (.scalar w) ∧ v.UnchangedAt i w) ∧
    (∀ (k : Nat) a, m.locals[k]? = some (.array a) → a.detail = .varying →
      ∃ b, t.machine.locals[k]? = some (.array b) ∧
        ∀ j : Nat, Option.Rel (Variable.UnchangedAt i) a.elements[j]? b.elements[j]?) ∧
    ∀ x, (host.env.graphics.get x).detail = .varying →
      (host.env.graphics.get x).UnchangedAt i (t.host.env.graphics.get x) := by
  intro t
  have hrelated : Session.Related (Variable.KeepsAt (· = .varying) i) ⟨m, host⟩ t :=
    Exec.related_step hi
  have hlocal {k : Nat} {l : Local} (hl : m.locals[k]? = some l) :
      ∃ l', t.machine.locals[k]? = some l' ∧ l.Related (Variable.KeepsAt (· = .varying) i) l' := by
    have hk : Option.Rel _ m.locals[k]? t.machine.locals[k]? := hrelated.locals k
    rw [hl] at hk
    generalize t.machine.locals[k]? = x at hk
    cases hk with
    | some h => exact ⟨_, rfl, h⟩
  refine ⟨fun k v hk hv => ?_, fun k a hk ha => ?_, fun x hx => (hrelated.graphics x).unchanged hx⟩
  · obtain ⟨l', hl', h⟩ := hlocal hk
    cases h with
    | scalar hw => exact ⟨_, hl', hw.unchanged hv⟩
  · obtain ⟨l', hl', h⟩ := hlocal hk
    cases h with
    | @array _ b hb =>
      refine ⟨b, hl', fun j => ?_⟩
      have hj := hb.elements j
      have hdetail := fun v hv => (hm.homogeneous k a hk v hv).2.trans ha
      generalize hv : a.elements[j]? = x at hj ⊢
      generalize b.elements[j]? = y at hj ⊢
      cases hj with
      | none => exact .none
      | some hw => exact .some (hw.unchanged (hdetail _ (Array.mem_of_getElem? hv)))

/-- A store under a condition that holds at the second of two points only. -/
theorem Machine.Reached.unchanged_at_idle_point_conditional :
    let code : Segment := ⟨#[.opcode "pushv" ⟨.pushVariable, [.variable]⟩, .variable (.graphics .s),
      .opcode "S_GET" ⟨.flow .setCurrent, []⟩, .opcode "RS_GET" ⟨.flow .selectCurrent, []⟩,
      .opcode "pushif" ⟨.pushFloat, [.float]⟩, .float 1,
      .opcode "pop" ⟨.popVariable, [.variable]⟩, .variable (.declared 0)], []⟩
    let p : Program :=
      ⟨.surface, "1", ⟨0⟩, #[⟨"x", .float, .varying, false, false, none⟩], .empty, code⟩
    let s : Session Grid := (do let _ ← Exec.execute 0; Exec.steps 4).after
      ⟨.fresh p .standard, .fresh 1 0, #[]⟩
    0 ∉ s.host.env.states.running.ones ∧ ∃ v w, s.machine.locals[0]? = some (.scalar v) ∧
      (Exec.step.after s).machine.locals[0]? = some (.scalar w) ∧ v.UnchangedAt 0 w := by
  intro code p s
  have hidle : 0 ∉ s.host.env.states.running.ones := by decide +kernel
  have hlocal : ((s.machine.locals.scalar? 0).toOption.map (·.detail)) = some .varying := by
    decide +kernel
  have hreached : Reached p .standard s.machine :=
    .inCode (⟨.fresh 1 0, #[]⟩ : Host Grid) 4 (.fresh (p := p) (c := .standard))
  clear_value s
  obtain ⟨v, hv, hdetail⟩ := Option.map_eq_some_iff.mp hlocal
  have hv' : s.machine.locals.scalar? 0 = .ok v := by
    cases hx : s.machine.locals.scalar? 0 with
    | ok u => simpa [hx, Except.toOption] using hv
    | error e => simp [hx, Except.toOption] at hv
  have hk := Exec.getElem?_of_scalar? hv'
  obtain ⟨w, hw, h⟩ := (hreached.unchanged_at_idle_point s.host hidle).1 0 v hk hdetail
  exact ⟨hidle, v, w, hk, hw, h⟩

end ShadingMachine
