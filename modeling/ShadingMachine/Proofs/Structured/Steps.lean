import Mathlib.Logic.Relation
import ShadingMachine.Machine.Execution
import ShadingMachine.Proofs.Grid.Refinement
import ShadingMachine.Proofs.Structured.Code

/-! From place to place in a segment. A statement that stands at the place of the machine is
executed by one step, and code by a step for each of its statements. -/
namespace ShadingMachine

namespace Exec

/-- One step that is no error. -/
def StepsTo (s t : Session Grid) : Prop := ∃ more, step s = .ok more t

variable {s t : Session Grid}

theorem dispatch_place {j : Instruction} {target? : Option Nat}
    (h : dispatch j s = .ok target? t) :
    t.machine.program = s.machine.program ∧ t.machine.segment = s.machine.segment ∧
      t.machine.position = s.machine.position := (ends_dispatch_place j s).of_ok h

theorem instruction?_of_le {g : Segment} {kind : SegmentKind} {position : Nat}
    (h : g.length ≤ position) : g.instruction? kind position = none := by
  have hnone : g.elements[position]? = none := Array.getElem?_eq_none h
  simp [Segment.instruction?, hnone]

/-- A step that says that there is no other instruction ends where there is none. -/
theorem next?_of_step_eq_false (h : step s = .ok false t) : t.next? = none := by
  rw [step_eq] at h
  unfold Session.next?
  cases hfound : (s.machine.program.segment s.machine.segment).instruction? s.machine.segment
    s.machine.position with
  | none =>
    rw [hfound] at h
    cases h
    exact hfound
  | some found =>
    rw [hfound] at h
    cases found with
    | error e => cases h
    | ok j =>
      obtain ⟨target?, u, hu, hproceed⟩ := bind_eq_ok.mp h
      obtain ⟨hprogram, hsegment, -⟩ := dispatch_place hu
      have hends : Ends (proceed s.machine.segment
          (s.machine.program.segment s.machine.segment).length target?) u
          (fun more v => more = false → v.machine.program = s.machine.program ∧
            v.machine.segment = s.machine.segment ∧
            (s.machine.program.segment s.machine.segment).length ≤ v.machine.position)
          fun _ _ => True := by
        rw [ends_proceed]
        split
        · exact fun hmore => ⟨hprogram, hsegment, by simpa using hmore⟩
        · split
          · trivial
          · exact fun hmore => ⟨hprogram, hsegment, by simpa using hmore⟩
      obtain ⟨hprogram', hsegment', hle⟩ := hends.of_ok hproceed rfl
      rw [hprogram', hsegment']
      exact instruction?_of_le hle

theorem step_of_next?_eq_none (h : s.next? = none) : step s = .ok false s := by
  rw [step_eq]
  unfold Session.next? at h
  rw [h]

/-- A machine that goes from session to session takes as many steps as it needs; where the segment
ends it stays. -/
theorem exists_steps (h : Relation.ReflTransGen StepsTo s t) :
    ∃ k done, steps k s = .ok done t := by
  induction h using Relation.ReflTransGen.head_induction_on with
  | refl => exact ⟨0, false, rfl⟩
  | @head s u hstep hrest ih =>
    obtain ⟨more, hmore⟩ := hstep
    cases more with
    | true =>
      obtain ⟨k, done, hk⟩ := ih
      exact ⟨k + 1, done, bind_eq_ok.mpr ⟨true, u, hmore, hk⟩⟩
    | false =>
      have hend := step_of_next?_eq_none (next?_of_step_eq_false hmore)
      have htu : t = u := by
        clear ih
        induction hrest with
        | refl => rfl
        | tail _ hlast ih =>
          obtain ⟨more, hlast⟩ := hlast
          rw [ih, hend] at hlast
          cases hlast
          rfl
      exact ⟨1, true, bind_eq_ok.mpr ⟨false, u, hmore, by rw [htu]; rfl⟩⟩

/-- An element-wise instruction goes on with the next one. -/
theorem ends_dispatch_next {j : Instruction} (hj : j.code.isElementwise = true)
    (s : Session Grid) : Ends (dispatch j) s (fun target? _ => target? = none) fun _ _ => True := by
  have hnext {β : Type} (x : Exec Grid β) {f : β → Exec Grid (Option Nat)} {t : Session Grid}
      (hf : ∀ b t, Ends (f b) t (fun target? _ => target? = none) fun _ _ => True) :
      Ends (x >>= f) t (fun target? _ => target? = none) fun _ _ => True :=
    ends_bind.mpr ((ends_total x).imp (fun b t _ => hf b t) fun _ _ _ => trivial)
  have hdone (u : Unit) (t : Session Grid) : Ends (pure none : Exec Grid (Option Nat)) t
      (fun target? _ => target? = none) fun _ _ => True := rfl
  unfold dispatch
  split
  · exact hnext _ hdone
  cases hc : j.code with
  | dup | pushVariable | popVariable | math => exact hnext _ hdone
  | drop | pushFloat | pushString => exact hnext _ fun _ _ => hnext _ hdone
  | pushPoint => exact hnext _ fun _ _ => hnext _ fun _ _ => hnext _ fun _ _ => hnext _ hdone
  | geometry f => cases f <;> first | exact hnext _ hdone | exact hdone () _
  | flow | nop | debugBreak | pushElement | popElement | string | service | illumination =>
    rw [hc] at hj
    cases hj
  | merge | buildTriple | buildColor | buildMatrix | ofFloat | tripleToColor | colorToTriple
  | arithmetic | dot | cross | negate | compare | and | or | not => exact hdone () _

end Exec

namespace Session

/-- The segment that the machine runs. -/
def text (s : Session Grid) : Segment := s.machine.program.segment s.machine.segment

/-- The machine goes in steps to a place of its segment. -/
structure Goes (s : Session Grid) (k : Nat) (t : Session Grid) : Prop where
  reaches : Relation.ReflTransGen Exec.StepsTo s t
  program : t.machine.program = s.machine.program
  segment : t.machine.segment = s.machine.segment
  position : t.machine.position = k

variable {k l : Nat} {w : Statement} {c ws : List Statement} {s t u : Session Grid}

theorem Goes.refl (s : Session Grid) : s.Goes s.machine.position s := ⟨.refl, rfl, rfl, rfl⟩

theorem Goes.trans (h : s.Goes k t) (h' : t.Goes l u) : s.Goes l u :=
  ⟨h.reaches.trans h'.reaches, h'.program.trans h.program, h'.segment.trans h.segment, h'.position⟩

theorem Goes.text_eq (h : s.Goes k t) : t.text = s.text := by
  unfold text
  rw [h.program, h.segment]

/-- A step executes the statement at the place of the machine and goes where it says. -/
theorem step_of_dispatch {target? : Option Nat} (hw : s.text.Holds s.machine.position (w :: ws))
    (hd : Exec.dispatch (w.instruction s.machine.position)
      (s.fetched (w.instruction s.machine.position)) = .ok target? t) :
    Exec.step s = Exec.proceed s.machine.segment s.text.length target? t := by
  have hfound := hw.instruction? s.machine.segment
  unfold text at hfound
  rw [Exec.step_eq, hfound]
  simp only [Bind.bind, EStateM.bind, hd]
  rfl

theorem goes_next (hw : s.text.Holds s.machine.position (w :: ws))
    (hd : Exec.dispatch (w.instruction s.machine.position)
      (s.fetched (w.instruction s.machine.position)) = .ok none t) :
    s.Goes (s.machine.position + w.size) t := by
  obtain ⟨hprogram, hsegment, hposition⟩ := Exec.dispatch_place hd
  refine ⟨.single ⟨_, step_of_dispatch hw hd⟩, hprogram, hsegment, hposition.trans ?_⟩
  show s.machine.position + 1 + w.operands.length = s.machine.position + (w.operands.length + 1)
  omega

theorem goes_jump {target : Nat} (hw : s.text.Holds s.machine.position (w :: ws))
    (hd : Exec.dispatch (w.instruction s.machine.position)
      (s.fetched (w.instruction s.machine.position)) = .ok (some target) t)
    (htarget : target ≤ s.text.length) :
    s.Goes target { t with machine := { t.machine with position := target } } := by
  obtain ⟨hprogram, hsegment, -⟩ := Exec.dispatch_place hd
  refine ⟨.single ⟨decide (target < s.text.length), (step_of_dispatch hw hd).trans ?_⟩, hprogram,
    hsegment, rfl⟩
  unfold Exec.proceed
  dsimp only
  rw [if_neg (by omega)]
  rfl

@[simp] theorem env_fetched (s : Session Grid) (j : Instruction) :
    (s.fetched j).host.env = s.host.env := by
  unfold Session.fetched
  split <;> rfl

/-- What an instruction works on, and what code works on wherever it stands. -/
theorem Alike.fetched (h : u.Alike s.masked) (j : Instruction) : u.Alike (s.fetched j) where
  locals := h.locals
  stack := h.stack
  pools := h.pools
  gridSize := h.gridSize
  mask := h.mask
  graphics := by
    rw [env_fetched]
    exact h.graphics
  resolution := by
    rw [env_fetched]
    exact h.resolution

/-- The machine executes code, by induction on its statements. -/
theorem goes_runCode {v : Session Grid} (hc : ∀ w ∈ c, w.operation.code.isElementwise = true)
    (hheld : s.text.Holds s.machine.position (c ++ ws)) (hu : u.Alike s.masked)
    (hrun : Exec.runCode c u = .ok () v) :
    ∃ t, s.Goes (s.machine.position + codeSize c) t ∧ v.Alike t.masked ∧
      t.host.env.states = s.host.env.states := by
  induction c generalizing s u with
  | nil =>
    cases hrun
    exact ⟨s, .refl s, hu, rfl⟩
  | cons w c ih =>
    have hw : (w.instruction s.machine.position).code.isElementwise = true := hc w (.head _)
    obtain ⟨target?, u', hu', hrest⟩ := Exec.bind_eq_ok.mp hrun
    obtain ⟨t, ht, halike⟩ := Exec.follows_dispatch
      (hu.fetched (w.instruction s.machine.position)) w 0 s.machine.position hw target? u' hu'
    have hunder := (Exec.preserves_dispatch (Exec.quiet_under _ _) _ (Exec.permits_under _ _ hw)
      (s.fetched (w.instruction s.machine.position)) ⟨rfl, rfl⟩).of_ok ht
    obtain rfl : target? = none := (Exec.ends_dispatch_next hw _).of_ok ht
    have hgoes := goes_next hheld ht
    have hstates : t.host.env.states = s.host.env.states := by
      rw [hunder.states, env_fetched]
    have hmasked : u'.Alike t.masked :=
      { halike with
        mask := by
          rw [← halike.mask, hunder.mask]
          show t.host.env.states.running = _
          rw [hstates]
          rfl }
    have hheld' : t.text.Holds t.machine.position (c ++ ws) := by
      rw [hgoes.text_eq, hgoes.position]
      exact hheld.tail
    obtain ⟨t', hgoes', halike', hstates'⟩ :=
      ih (fun v hv => hc v (.tail _ hv)) hheld' hmasked hrest
    refine ⟨t', ?_, halike', hstates'.trans hstates⟩
    rw [hgoes.position] at hgoes'
    rw [codeSize_cons, ← Nat.add_assoc]
    exact hgoes.trans hgoes'

end Session

end ShadingMachine
