import ShadingMachine.Proofs.Arrays.Access
import ShadingMachine.Proofs.Lights.Place

/-! Loops over the lights. A loop collects the lights that it visits, runs its body as long as there is
one ahead, and goes on with the next. Whatever the body is, as long as it comes to its end and leaves
the place of the loop alone, it runs once for each of these lights, in order. -/
namespace ShadingMachine

namespace Exec

variable {i : Instruction} {s : Session Grid} {slot : Slot} {rest : List Slot} {target : Nat}
  {b : Bool}

theorem holds_ofBool (b : Bool) : Scalar.holds (Scalar.ofBool b : Float32) = b := by
  cases b <;> decide +kernel

/-- A jump on a truth. -/
theorem ends_jumpOn (want : Bool) (hi : i.target = .ok target)
    (hstack : s.machine.stack = slot :: rest) (hdetail : slot.detail = .uniform)
    (hvalue : (s.machine.pools.value slot).getFloat 0 = Scalar.ofBool b) :
    Ends (jumpOn i want) s (fun target? t => target? = (if b = want then some target else none) ∧
      t.machine.stack = rest ∧ t.host = s.host) fun _ _ => False := by
  have hagrees (mask : Mask) : agrees (s.machine.pools.value slot) want mask = (b == want) := by
    have huniform : (s.machine.pools.value slot).isVarying = false := by
      rw [Value.isVarying, Pools.detail_value, hdetail]
      rfl
    simp only [agrees, huniform, hvalue, holds_ofBool, Bool.not_false, if_true]
  unfold jumpOn popValue
  simp only [hi, ends_bind, ends_ofExcept_ok, ends_popOne hstack]
  refine ⟨?_, rfl, rfl⟩
  rw [hagrees]
  simp only [beq_iff_eq]

end Exec

theorem Statement.complete_nil : ([] : List Element).length = ([] : List OperandKind).length := rfl

def Statement.light (name : String) (f : Illumination) : Statement :=
  ⟨name, ⟨.illumination f, []⟩, [], complete_nil⟩

namespace Session

variable {s t u : Session Grid} {w : Statement} {ws : List Statement}

theorem stepsTo_next (hw : s.text.Holds s.machine.position (w :: ws))
    (hd : Exec.dispatch (w.instruction s.machine.position)
      (s.fetched (w.instruction s.machine.position)) = .ok none t) : Exec.StepsTo s t :=
  ⟨_, step_of_dispatch hw hd⟩

theorem stepsTo_jump {target : Nat} (hw : s.text.Holds s.machine.position (w :: ws))
    (hd : Exec.dispatch (w.instruction s.machine.position)
      (s.fetched (w.instruction s.machine.position)) = .ok (some target) t)
    (htarget : target ≤ s.text.length) :
    Exec.StepsTo s { t with machine := { t.machine with position := target } } := by
  refine ⟨decide (target < s.text.length), (step_of_dispatch hw hd).trans ?_⟩
  unfold Exec.proceed
  dsimp only
  rw [if_neg (by omega)]
  rfl

/-- An instruction that pushes a truth, and a jump on it. -/
theorem tested {light name : String} {f : Illumination} {f' : Flow} {want b : Bool}
    {label target : Nat}
    (hw : s.text.Holds s.machine.position (.light light f :: .jump name f' ⟨label, target⟩ :: ws))
    (hf' : ∀ i, (Exec.flow i f' : Exec Grid (Option Nat)) = Exec.jumpOn i want)
    (hu : u.machine.Accounts)
    (hd : let i := (Statement.light light f).instruction s.machine.position
      Exec.illumination i f (s.fetched i) = Exec.pushTruth b u)
    (htarget : target ≤ s.text.length) :
    ∃ v t, Exec.StepsTo s v ∧ Exec.StepsTo v t ∧ t.text = s.text ∧
      t.machine.position = (if b = want then target else s.machine.position + 3) ∧
      t.machine.stack = u.machine.stack ∧ t.host.env = u.host.env := by
  obtain ⟨slot, pools, hpush, hdetail, hvalue⟩ := Exec.pushTruth_run hu b
  let i := (Statement.light light f).instruction s.machine.position
  have hpushed : Exec.dispatch i (s.fetched i) = .ok none
      { u with machine := { u.machine with stack := slot :: u.machine.stack, pools } } := by
    rw [Exec.dispatch_illumination rfl]
    exact Exec.bind_eq_ok.mpr ⟨_, _, hd.trans hpush, rfl⟩
  have hgoes := goes_next hw hpushed
  set v : Session Grid :=
    { u with machine := { u.machine with stack := slot :: u.machine.stack, pools } }
  have hheld : v.text.Holds v.machine.position (.jump name f' ⟨label, target⟩ :: ws) := by
    rw [hgoes.text_eq, hgoes.position]
    exact hw.tail
  let j : Instruction := (Statement.jump name f' ⟨label, target⟩).instruction v.machine.position
  have hjump : (Exec.dispatch j : Exec Grid (Option Nat)) = Exec.jumpOn j want :=
    (show Exec.dispatch j = Exec.flow j f' from rfl).trans (hf' j)
  have htarget' : j.target = .ok target := rfl
  obtain ⟨target?, t, ht, hjumps, hstack, hhost⟩ :=
    (Exec.ends_jumpOn (s := v.fetched j) want htarget' rfl hdetail hvalue).exists_ok
  rw [← hjump] at ht
  have henv : t.host.env = u.host.env := by
    rw [hhost]
    exact env_fetched v j
  by_cases hb : b = want
  · rw [if_pos hb] at hjumps ⊢
    subst hjumps
    have htarget : target ≤ v.text.length := by rwa [hgoes.text_eq]
    have hgoes' := goes_jump hheld ht htarget
    exact ⟨v, _, stepsTo_next hw hpushed, stepsTo_jump hheld ht htarget,
      hgoes'.text_eq.trans hgoes.text_eq, rfl, hstack, henv⟩
  · rw [if_neg hb] at hjumps ⊢
    subst hjumps
    have hgoes' := goes_next hheld ht
    refine ⟨v, t, stepsTo_next hw hpushed, stepsTo_next hheld ht,
      hgoes'.text_eq.trans hgoes.text_eq, ?_, hstack, henv⟩
    rw [hgoes'.position, hgoes.position]
    rfl

end Session

/-- A loop over the lights, with the numbers of its two labels. A filtered one takes its filter from
the stack. -/
structure LightLoop where
  filtered : Bool
  again : Nat
  leave : Nat
  body : List Statement

namespace LightLoop

/-- Where the body of a loop ends that starts at a place. -/
def last (l : LightLoop) (k : Nat) : Nat := k + 3 + codeSize l.body

/-- Where a loop ends that starts at a place. -/
def stop (l : LightLoop) (k : Nat) : Nat := l.last k + 3

def start (l : LightLoop) : Statement :=
  if l.filtered then .light "init_illuminance2" .startCategory else .light "init_illuminance" .start

/-- The loop as it stands at a place. -/
def statements (l : LightLoop) (k : Nat) : List Statement :=
  l.start :: .jump "jz" .jumpFalse ⟨l.leave, l.stop k⟩ :: l.body ++
    [.light "advance_illuminance" .advance, .jump "jnz" .jumpTrue ⟨l.again, k + 3⟩]

/-- No opcode of the body moves a loop over the lights. -/
def StandsStill (l : LightLoop) : Prop :=
  ∀ name operation, Element.opcode name operation ∈ l.body.flatMap Statement.elements →
    operation.code.movesLights = false

/-- The filter that the loop is about to take. -/
def filter? (l : LightLoop) (s : Session Grid) : Option String :=
  if l.filtered then s.machine.stack.head?.map fun slot => (s.machine.pools.value slot).getString 0
  else none

variable (l : LightLoop) (k : Nat)

/-- A step in the body of the loop. -/
def Inside (s t : Session Grid) : Prop :=
  k + 3 ≤ s.machine.position ∧ s.machine.position < l.last k ∧ Exec.StepsTo s t

/-- The body goes from one session to the other, where it ends. -/
def Passes (s t : Session Grid) : Prop :=
  Relation.ReflTransGen (l.Inside k) s t ∧ t.machine.position = l.last k

/-- Two steps: a truth is pushed, and a jump is made or not. -/
def Tests (s t : Session Grid) : Prop := ∃ u, Exec.StepsTo s u ∧ Exec.StepsTo u t

/-- The sessions in which a round begins of the loop that is at its start. -/
inductive Begins (s : Session Grid) : Session Grid → Prop
  | first {x : Session Grid} : Tests s x → x.machine.position = k + 3 → Begins s x
  | next {x y z : Session Grid} : Begins s x → l.Passes k x y → Tests y z →
    z.machine.position = k + 3 → Begins s z

/-- From the start of a round the loop runs its body once for each light, in order, and every sample
in a round is one of its light; then the loop is left. -/
inductive Visits : List Light → Session Grid → Session Grid → Prop
  | done {x : Session Grid} : x.machine.position = l.stop k → Visits [] x x
  | round {light : Light} {ls : List Light} {x y z t : Session Grid} :
    x.machine.position = k + 3 → l.Passes k x y →
    (∀ u v i, Relation.ReflTransGen (l.Inside k) x u → l.Inside k u v → u.next? = some (.ok i) →
      i.code.samplesLight = true → u.Samples light v) →
    Tests y z → Visits ls z t → Visits (light :: ls) x t

end LightLoop

/-- A step by an instruction that starts no loop over the lights. -/
def Session.GoesOn (s t : Session Grid) : Prop :=
  Exec.StepsTo s t ∧ ∀ i, s.next? = some (.ok i) → i.code.startsLights = false

/-- The loop goes from its start to its end and visits the lights. Until another one is started, there
is no light to sample and none to go on with. -/
structure LightLoop.Completes (l : LightLoop) (k : Nat) (lights : List Light) (s t : Session Grid) :
    Prop where
  visits : ∃ x, Tests s x ∧ l.Visits k lights x t
  stack : s.machine.stack.length = t.machine.stack.length + if l.filtered then 1 else 0
  behind : ∀ u v i, Relation.ReflTransGen Session.GoesOn t u → Exec.StepsTo u v →
    u.next? = some (.ok i) → (i.code.samplesLight = true → u.SamplesNone v) ∧
      (i.code = .illumination .advance → u.Answers false v)

namespace Segment

theorem Holds.getElem? {g : Segment} {k p : Nat} {ws : List Statement} (h : g.Holds k ws)
    (hk : k ≤ p) (hp : p < k + codeSize ws) :
    g.elements[p]? = (ws.flatMap Statement.elements)[p - k]? := by
  obtain ⟨before, after, hg, rfl⟩ := h
  have hlength := length_flatMap_elements ws
  rw [← Array.getElem?_toList, hg, List.append_assoc, List.getElem?_append_right hk,
    List.getElem?_append_left (by omega)]

end Segment

namespace Session

variable {s t : Session Grid} {i : Instruction}

theorem text_eq_of_stepsTo (h : Exec.StepsTo s t) : t.text = s.text := by
  obtain rfl | ⟨i, -, target?, u, position, hu, rfl⟩ := h.cases
  · rfl
  · obtain ⟨hprogram, hsegment, -⟩ := Exec.dispatch_place hu
    show u.machine.program.segment u.machine.segment = s.machine.program.segment s.machine.segment
    rw [hprogram, hsegment]
    rfl

/-- The next instruction stands where the machine is. -/
theorem exists_opcode_of_next? (h : s.next? = some (.ok i)) :
    ∃ name operation, s.text.elements[s.machine.position]? = some (.opcode name operation) ∧
      i.code = operation.code := by
  obtain ⟨e, he, hread⟩ := Option.map_eq_some_iff.mp h
  cases e with
  | opcode name operation =>
    refine ⟨name, operation, he, ?_⟩
    dsimp only at hread
    split at hread
    · cases hread
    · cases hread
      rfl
  | _ => cases hread

/-- Where no light is ahead, none is until a loop is started. -/
theorem GoesOn.ahead_nil (h : s.GoesOn t) (hs : s.Sound) (hahead : s.host.env.Ahead []) :
    t.host.env.Ahead [] := by
  obtain ⟨hstep, hstarts⟩ := h
  by_cases hadvance : ∃ i, s.next? = some (.ok i) ∧ i.code = .illumination .advance
  · obtain ⟨i, hi, hcode⟩ := hadvance
    exact (answers_of_advance hs hstep hi hcode hahead).2
  · refine ahead_step hahead hstep fun i hi => ?_
    have hstarts := hstarts i hi
    have hadvance : i.code ≠ .illumination .advance := fun h => hadvance ⟨i, hi, h⟩
    unfold Opcode.movesLights
    split
    · rename_i hcode
      rw [hcode] at hstarts
      cases hstarts
    · rename_i hcode
      rw [hcode] at hstarts
      cases hstarts
    · rename_i hcode
      exact absurd hcode hadvance
    · rfl

end Session

namespace LightLoop

/-- The loop stands at a place, with lights ahead. -/
structure At (l : LightLoop) (k : Nat) (ls : List Light) (s : Session Grid) : Prop where
  held : s.text.Holds k (l.statements k)
  sound : s.Sound
  ahead : s.host.env.Ahead ls

variable {l : LightLoop} {k : Nat} {ls : List Light} {light : Light} {s x y : Session Grid}

theorem At.held_body (h : l.At k ls s) : s.text.Holds (k + 3) (l.body ++
    [.light "advance_illuminance" .advance, .jump "jnz" .jumpTrue ⟨l.again, k + 3⟩]) := by
  have hstart : l.start.size = 1 := by
    unfold start
    split <;> rfl
  have hheld := h.held.tail.tail
  rw [hstart] at hheld
  exact hheld

/-- In the body no instruction moves the loop. -/
theorem At.inside (h : l.At k ls s) (hl : l.StandsStill) {t : Session Grid} (hstep : l.Inside k s t) :
    l.At k ls t := by
  obtain ⟨hfirst, hlast, hstep⟩ := hstep
  refine ⟨?_, h.sound.step hstep, Session.ahead_step h.ahead hstep fun i hi => ?_⟩
  · rw [Session.text_eq_of_stepsTo hstep]
    exact h.held
  · obtain ⟨name, operation, he, hcode⟩ := Session.exists_opcode_of_next? hi
    rw [h.held_body.append_left.getElem? hfirst hlast] at he
    rw [hcode]
    exact hl name operation (List.mem_of_getElem? he)

/-- By induction on the steps of the body. -/
theorem At.passes (h : l.At k ls x) (hl : l.StandsStill)
    (hsteps : Relation.ReflTransGen (l.Inside k) x y) : l.At k ls y := by
  induction hsteps with
  | refl => exact h
  | tail _ hstep ih => exact ih.inside hl hstep

/-- Where the session is that has lights ahead: at the start of a round, or behind the loop. -/
def place (l : LightLoop) (k : Nat) (ls : List Light) : Nat := if ls.isEmpty then l.stop k else k + 3

/-- Behind the body the loop goes on with the next light. -/
theorem At.advance (h : l.At k (light :: ls) s) (hs : s.machine.position = l.last k) :
    ∃ t, Tests s t ∧ l.At k ls t ∧ t.machine.position = l.place k ls ∧
      t.machine.stack = s.machine.stack := by
  let i := (Statement.light "advance_illuminance" .advance).instruction s.machine.position
  have hheld : s.text.Holds s.machine.position
      [.light "advance_illuminance" .advance, .jump "jnz" .jumpTrue ⟨l.again, k + 3⟩] := by
    rw [hs]
    exact h.held_body.append_right
  obtain ⟨hanswer, hnext⟩ := (Session.ahead_fetched h.ahead i).nextLight (s.fetched i).host.log
  let u : Session Grid := { s.fetched i with host := (Grid.nextLight.run (s.fetched i).host).2 }
  have hd : Exec.illumination i .advance (s.fetched i) = Exec.pushTruth (!ls.isEmpty) u := by
    rw [Exec.advance_run]
    exact congrArg (Exec.pushTruth · u) hanswer
  have hlength : k + 3 ≤ s.text.length := Nat.le_of_add_right_le h.held_body.le
  obtain ⟨v, t, hv, ht, htext, hposition, hstack, henv⟩ :=
    Session.tested (u := u) hheld (fun _ => rfl) (h.sound.fetched i).accounts hd hlength
  refine ⟨t, ⟨v, hv, ht⟩, ⟨?_, (h.sound.step hv).step ht, ?_⟩, ?_, hstack⟩
  · rw [htext]
    exact h.held
  · rw [henv]
    exact hnext
  · rw [hposition, hs, place]
    cases ls <;> rfl

/-- The instruction at the start takes the filter, if the loop is filtered, and collects the lights. -/
theorem exists_started (hs : s.Sound) (hfilter : l.filtered = true → s.machine.stack ≠ []) :
    ∃ name f, l.start = .light name f ∧ ∀ i, ∃ u,
      Exec.illumination i f (s.fetched i) =
        Exec.pushTruth (!(s.host.env.matching (l.filter? s)).isEmpty) u ∧
      u.machine.Accounts ∧ u.host.env = s.host.env.collectLights (l.filter? s) ∧
      s.machine.stack.length = u.machine.stack.length + if l.filtered then 1 else 0 := by
  cases hfiltered : l.filtered with
  | false =>
    have hnone : l.filter? s = none := by
      rw [filter?, hfiltered]
      rfl
    rw [hnone]
    refine ⟨"init_illuminance", .start, by rw [start, hfiltered]; rfl, fun i => ?_⟩
    have hrun := Exec.startIlluminance_run none (s.fetched i)
    rw [Session.env_fetched] at hrun
    exact ⟨_, hrun, (hs.fetched i).accounts, rfl, rfl⟩
  | true =>
    obtain ⟨slot, rest, hstack⟩ := List.exists_cons_of_ne_nil (hfilter hfiltered)
    have hsome : l.filter? s = some ((s.machine.pools.value slot).getString 0) := by
      rw [filter?, hfiltered, hstack]
      rfl
    rw [hsome]
    refine ⟨"init_illuminance2", .startCategory, by rw [start, hfiltered]; rfl, fun i => ?_⟩
    let filter := (s.machine.pools.value slot).getString 0
    let u : Session Grid := { s.fetched i with machine := { (s.fetched i).machine with
      stack := rest, pools := s.machine.pools.releaseAll [slot] } }
    have hpop : Exec.popValue i (s.fetched i) = .ok (s.machine.pools.value slot) u :=
      Exec.popValue_run i (s := s.fetched i) hstack
    have henv : u.host.env = s.host.env := Session.env_fetched s i
    have hrun := Exec.startIlluminance_run (some filter) u
    rw [henv] at hrun
    have haccounts : u.machine.Accounts := by
      have htaken : s.machine.pools.Accounts (([slot] : List Slot) + rest : Multiset Slot) := by
        rw [Multiset.coe_add, List.singleton_append, ← hstack]
        exact hs.accounts
      exact htaken.releaseAll
    refine ⟨{ u with host := ⟨s.host.env.collectLights (some filter), u.host.log⟩ }, ?_, haccounts,
      rfl, by rw [hstack]; rfl⟩
    rw [← hrun]
    show (Exec.popValue i >>= fun v => Exec.startIlluminance (some (v.getString 0))) (s.fetched i) = _
    simp only [Bind.bind, EStateM.bind, hpop]
    rfl

/-- The loop starts with the first light. -/
theorem exists_first (hs : s.Sound) (hheld : s.text.Holds s.machine.position
    (l.statements s.machine.position)) (hfilter : l.filtered = true → s.machine.stack ≠ []) :
    let k := s.machine.position
    let lights := s.host.env.matching (l.filter? s)
    ∃ t, Tests s t ∧ l.At k lights t ∧ t.machine.position = l.place k lights ∧
      s.machine.stack.length = t.machine.stack.length + if l.filtered then 1 else 0 := by
  intro k lights
  obtain ⟨name, f, hstart, hd⟩ := exists_started hs hfilter
  obtain ⟨u, hd, hu, henv, hlength⟩ := hd ((Statement.light name f).instruction k)
  have hheld' := hheld
  rw [statements, hstart] at hheld'
  have hstop : l.stop k ≤ s.text.length := by
    have hle := hheld'.le
    simp only [List.cons_append, codeSize_cons, codeSize_append, Statement.size_jump] at hle
    have hsize (name : String) (f : Illumination) : (Statement.light name f).size = 1 := rfl
    rw [hsize, hsize, codeSize_nil] at hle
    unfold stop last
    omega
  obtain ⟨v, t, hv, ht, htext, hposition, hstack, henv'⟩ :=
    Session.tested hheld' (fun _ => rfl) hu hd hstop
  refine ⟨t, ⟨v, hv, ht⟩, ⟨?_, (hs.step hv).step ht, ?_⟩, ?_, ?_⟩
  · rw [htext]
    exact hheld
  · rw [henv', henv]
    exact s.host.env.ahead_collectLights _
  · rw [hposition, place]
    cases (s.host.env.matching (l.filter? s)).isEmpty <;> rfl
  · rw [hstack]
    exact hlength

/-- By induction on the lights ahead. -/
theorem At.exists_visits (hl : l.StandsStill)
    (hbody : ∀ x, l.Begins k s x →
      ∃ y, l.Passes k x y ∧ y.machine.stack.length = x.machine.stack.length)
    (h : l.At k ls x) (hx : x.machine.position = l.place k ls) (hbegins : ls ≠ [] → l.Begins k s x) :
    ∃ t, l.Visits k ls x t ∧ l.At k [] t ∧
      t.machine.stack.length = x.machine.stack.length := by
  induction ls generalizing x with
  | nil => exact ⟨x, .done hx, h, rfl⟩
  | cons light ls ih =>
    have hround : l.Begins k s x := hbegins (List.cons_ne_nil _ _)
    obtain ⟨y, hpasses, hneutral⟩ := hbody x hround
    have hy : l.At k (light :: ls) y := h.passes hl hpasses.1
    obtain ⟨z, htests, hz, hplace, hstack⟩ := hy.advance hpasses.2
    have hnext (hne : ls ≠ []) : l.Begins k s z := by
      refine .next hround hpasses htests (hplace.trans (if_neg ?_))
      rwa [List.isEmpty_iff]
    obtain ⟨t, hvisits, ht, hlength⟩ := ih hz hplace hnext
    refine ⟨t, .round hx hpasses (fun u v i hu huv hi hcode => ?_) htests hvisits, ht, ?_⟩
    · have hat := h.passes hl hu
      exact Session.samples_of_ahead hat.sound huv.2.2 hi hcode hat.ahead
    · rw [hlength, hstack, hneutral]

/-- By induction on the steps that start no loop. -/
theorem At.behind {t u : Session Grid} (h : l.At k [] t)
    (hsteps : Relation.ReflTransGen Session.GoesOn t u) : u.Sound ∧ u.host.env.Ahead [] := by
  induction hsteps with
  | refl => exact ⟨h.sound, h.ahead⟩
  | tail _ hstep ih => exact ⟨ih.1.step hstep.1, hstep.ahead_nil ih.1 ih.2⟩

theorem exists_completes (hs : s.Sound) (hheld : s.text.Holds s.machine.position
    (l.statements s.machine.position)) (hl : l.StandsStill)
    (hfilter : l.filtered = true → s.machine.stack ≠ [])
    (hbody : ∀ x, l.Begins s.machine.position s x →
      ∃ y, l.Passes s.machine.position x y ∧ y.machine.stack.length = x.machine.stack.length) :
    ∃ t, l.Completes s.machine.position (s.host.env.matching (l.filter? s)) s t := by
  obtain ⟨x, htests, hx, hplace, hfirst⟩ := exists_first hs hheld hfilter
  have hbegins (hne : s.host.env.matching (l.filter? s) ≠ []) : l.Begins s.machine.position s x := by
    refine .first htests (hplace.trans (if_neg ?_))
    rwa [List.isEmpty_iff]
  obtain ⟨t, hvisits, ht, hlength⟩ := hx.exists_visits hl hbody hplace hbegins
  refine ⟨t, ⟨x, htests, hvisits⟩, by rw [hlength]; exact hfirst, fun u v i hu huv hi => ?_⟩
  obtain ⟨hsound, hahead⟩ := ht.behind hu
  exact ⟨fun hcode => Session.samplesNone_of_ahead hsound huv hi hcode hahead,
    fun hcode => (Session.answers_of_advance hsound huv hi hcode hahead).1⟩

end LightLoop

namespace Session

variable (s : Session Grid) (collected : List Nat) (cursor : Nat)

/-- With the place of a loop over the lights that an earlier run has left. -/
def withPlace : Session Grid :=
  { s with host := { s.host with env := { s.host.env with collected, cursor } } }

theorem resized_withPlace :
    (s.withPlace collected cursor).resized = s.resized.withPlace collected cursor := by
  show (if Environment.pointCount s.host.env ≠ s.machine.gridSize then _ else _) =
    withPlace (if Environment.pointCount s.host.env ≠ s.machine.gridSize then _ else _) _ _
  split <;> rfl

theorem restated_withPlace :
    (s.withPlace collected cursor).restated = s.restated.withPlace collected cursor := by
  show (if s.host.env.states.size ≠ Environment.pointCount s.host.env then _ else _) =
    withPlace (if s.host.env.states.size ≠ Environment.pointCount s.host.env then _ else _) _ _
  split <;> rfl

theorem ready_withPlace : (s.withPlace collected cursor).ready = s.ready := by
  unfold ready
  rw [resized_withPlace, restated_withPlace]
  rfl

end Session

namespace LightLoop

variable {l : LightLoop} {k : Nat} {s t u x y : Session Grid}

theorem Tests.eq_after (h : Tests s t) : t = Exec.step.after (Exec.step.after s) := by
  obtain ⟨u, ⟨_, hu⟩, ⟨_, ht⟩⟩ := h
  simp only [Exec.after, hu, ht]

/-- By induction on the steps of the body, which are one way only. -/
theorem Passes.unique (h : l.Passes k s t) (h' : l.Passes k s u) : t = u := by
  obtain ⟨hsteps, ht⟩ := h
  obtain ⟨hsteps', hu⟩ := h'
  induction hsteps using Relation.ReflTransGen.head_induction_on with
  | refl =>
    cases hsteps' using Relation.ReflTransGen.head_induction_on with
    | refl => rfl
    | head hstep _ => exact absurd ht hstep.2.1.ne
  | head hstep _ ih =>
    cases hsteps' using Relation.ReflTransGen.head_induction_on with
    | refl => exact absurd hu hstep.2.1.ne
    | head hstep' hrest' =>
      obtain ⟨-, -, _, hv⟩ := hstep
      obtain ⟨-, -, _, hv'⟩ := hstep'
      cases hv.symm.trans hv'
      exact ih hrest'

variable (l k)

/-- Runs the body to its end, if it takes no more steps than `limit`. -/
def pass? : (limit : Nat) → Session Grid → Option (Session Grid)
  | 0, _ => none
  | limit + 1, s =>
    if s.machine.position = l.last k then some s
    else if k + 3 ≤ s.machine.position ∧ s.machine.position < l.last k then
      match Exec.step s with
      | .ok _ t => pass? limit t
      | .error .. => none
    else none

/-- Whether the loop is left after no more rounds than `rounds`, and the body of each comes to its end
and leaves as many operands as there were. -/
def leaves (limit : Nat) : (rounds : Nat) → Session Grid → Bool
  | 0, _ => false
  | rounds + 1, x =>
    x.machine.position ≠ k + 3 ||
      match l.pass? k limit x with
      | some y => y.machine.stack.length = x.machine.stack.length &&
        leaves limit rounds (Exec.step.after (Exec.step.after y))
      | none => false

variable {l k}

theorem passes_of_pass? {limit : Nat} (h : l.pass? k limit s = some t) : l.Passes k s t := by
  induction limit generalizing s with
  | zero => cases h
  | succ limit ih =>
    unfold pass? at h
    split at h
    · rename_i hlast
      cases h
      exact ⟨.refl, hlast⟩
    split at h
    · rename_i hinside
      split at h
      · rename_i more v hv
        obtain ⟨hsteps, ht⟩ := ih h
        exact ⟨.head ⟨hinside.1, hinside.2, more, hv⟩ hsteps, ht⟩
      · cases h
    · cases h

/-- A round of a loop that is left when it is run, and what is left of the loop. -/
theorem exists_round_of_leaves {limit rounds : Nat} (h : l.leaves k limit rounds x = true)
    (hx : x.machine.position = k + 3) :
    ∃ y, l.Passes k x y ∧ y.machine.stack.length = x.machine.stack.length ∧
      ∃ rounds, l.leaves k limit rounds (Exec.step.after (Exec.step.after y)) = true := by
  cases rounds with
  | zero => cases h
  | succ rounds =>
    unfold leaves at h
    rw [decide_eq_false (not_not.mpr hx), Bool.false_or] at h
    cases hy : l.pass? k limit x with
    | none =>
      rw [hy] at h
      cases h
    | some y =>
      rw [hy] at h
      obtain ⟨hneutral, hrest⟩ := Bool.and_eq_true_iff.mp h
      exact ⟨y, passes_of_pass? hy, of_decide_eq_true hneutral, rounds, hrest⟩

/-- A loop that is left when it is run has a body that always comes to its end. -/
theorem exists_passes_of_leaves {limit rounds : Nat}
    (h : l.leaves k limit rounds (Exec.step.after (Exec.step.after s)) = true)
    (hx : l.Begins k s x) :
    ∃ y, l.Passes k x y ∧ y.machine.stack.length = x.machine.stack.length := by
  have hleaves : x.machine.position = k + 3 ∧ ∃ rounds, l.leaves k limit rounds x = true := by
    induction hx with
    | first htests hposition =>
      rw [htests.eq_after] at hposition ⊢
      exact ⟨hposition, rounds, h⟩
    | next _ hpasses htests hposition ih =>
      obtain ⟨hround, _, hrun⟩ := ih
      obtain ⟨y', hpasses', -, hrest⟩ := exists_round_of_leaves hrun hround
      rw [htests.eq_after, hpasses.unique hpasses'] at hposition ⊢
      exact ⟨hposition, hrest⟩
  obtain ⟨hposition, _, hrun⟩ := hleaves
  obtain ⟨y, hpasses, hneutral, -⟩ := exists_round_of_leaves hrun hposition
  exact ⟨y, hpasses, hneutral⟩

end LightLoop

namespace Machine

variable {p : Program} {c : Config} {m : Machine}

/-- A loop over the lights visits each of them once. Whatever its body is, if it leaves the loop alone
and always comes to its end with as many operands as before, the loop is left after one round for each
light that is not ambient and passes the filter, in order, and every sample in a round is one of its
light. From there on, until another loop is started, samples are zero and change nothing, and there is
no light to go on with; and a run never sees the lights that an earlier one has collected. -/
theorem Reached.visits_lights (hm : Reached p c m) (host : Host Grid) (hhost : host.env.WellKept)
    (l : LightLoop) (hl : l.StandsStill)
    (hheld : (⟨m, host⟩ : Session Grid).text.Holds m.position (l.statements m.position))
    (hfilter : l.filtered = true → m.stack ≠ [])
    (hbody : ∀ x, l.Begins m.position ⟨m, host⟩ x →
      ∃ y, l.Passes m.position x y ∧ y.machine.stack.length = x.machine.stack.length) :
    (∃ t, l.Completes m.position (host.env.matching (l.filter? ⟨m, host⟩)) ⟨m, host⟩ t) ∧
      ∀ limit collected cursor, Exec.execute limit (Session.withPlace ⟨m, host⟩ collected cursor) =
        Exec.execute limit ⟨m, host⟩ := by
  have hsound : Session.Sound ⟨m, host⟩ := ⟨hm.accounts, hhost.graphics⟩
  refine ⟨LightLoop.exists_completes hsound hheld hl hfilter hbody, fun limit collected cursor => ?_⟩
  rw [Exec.execute_ready, Exec.execute_ready, Session.ready_withPlace]
  rfl

/-- Of four lights, one ambient and one that the filter excludes, the body runs for two. -/
theorem Reached.visits_lights_but_fill :
    let body : List Statement := [
      ⟨"pushv", ⟨.pushVariable, [.variable]⟩, [.variable (.graphics .position)], rfl⟩,
      ⟨"puship", ⟨.pushPoint, [.float, .float, .float]⟩, [.float 0, .float 0, .float 1], rfl⟩,
      ⟨"pushif", ⟨.pushFloat, [.float]⟩, [.float 4], rfl⟩,
      .light "illuminance" .illuminance, ⟨"drop", ⟨.drop, []⟩, [], rfl⟩]
    let l : LightLoop := ⟨true, 1, 2, body⟩
    let filter : Statement := ⟨"pushis", ⟨.pushString, [.string]⟩, [.string "-fill"], rfl⟩
    let code : Segment := ⟨((filter :: l.statements 2).flatMap Statement.elements).toArray, []⟩
    let p : Program := ⟨.surface, "1", ⟨0⟩, #[], .empty, code⟩
    let lights : Array Light := #[⟨.ambient, .white, 1, []⟩, ⟨.distant ⟨0, 0, 1⟩, .white, 1, ["key"]⟩,
      ⟨.point ⟨0, 0, 0⟩, .white, 1, ["fill"]⟩, ⟨.point ⟨0, 1, 0⟩, .white, 2, []⟩]
    let host : Host Grid := ⟨{ Grid.fresh 1 0 with lights }, #[]⟩
    let run : Exec Grid Bool := do let _ ← Exec.execute 0; Exec.steps 1
    let m := (run.after ⟨.fresh p .standard, host⟩).machine
    let visited := host.env.matching (l.filter? ⟨m, host⟩)
    visited.map (·.categories) = [["key"], []] ∧ ∃ t, l.Completes 2 visited ⟨m, host⟩ t := by
  intro body l filter code p lights host run m visited
  have hreached : Reached p .standard m := .inCode host 1 .fresh
  have hplace : m.position = 2 ∧ m.segment = .code ∧ m.stack.length = 1 := by decide +kernel
  have hleaves : l.leaves m.position 9 3 (Exec.step.after (Exec.step.after ⟨m, host⟩)) = true := by
    decide +kernel
  have hvisited : visited.map (·.categories) = [["key"], []] := by decide +kernel
  have hhost : host.env.WellKept :=
    ⟨(Grid.wellKept_fresh 1 0).graphics, (Grid.wellKept_fresh 1 0).states⟩
  clear_value m
  obtain ⟨hposition, hsegment, hdepth⟩ := hplace
  have hheld : (⟨m, host⟩ : Session Grid).text.Holds 2 (l.statements 2) := by
    have htext : (⟨m, host⟩ : Session Grid).text = code := by
      show m.program.segment m.segment = code
      rw [hreached.program, hsegment]
      rfl
    rw [htext]
    exact ⟨filter.elements, [], by rw [List.append_nil]; rfl, rfl⟩
  have hstill : l.StandsStill := by
    intro name operation h
    simp only [l, body, Statement.elements, Statement.light, List.flatMap_cons, List.flatMap_nil,
      List.cons_append, List.nil_append, List.mem_cons, Element.opcode.injEq, List.not_mem_nil,
      reduceCtorEq, false_or, or_false] at h
    rcases h with ⟨-, rfl⟩ | ⟨-, rfl⟩ | ⟨-, rfl⟩ | ⟨-, rfl⟩ | ⟨-, rfl⟩ <;> rfl
  have hfilter : l.filtered = true → m.stack ≠ [] := fun _ => List.ne_nil_of_length_pos (by omega)
  have hcompletes := (hreached.visits_lights host hhost l hstill (by rwa [hposition]) hfilter
    fun _ => LightLoop.exists_passes_of_leaves hleaves).1
  rw [hposition] at hcompletes
  exact ⟨hvisited, hcompletes⟩

end Machine

end ShadingMachine
