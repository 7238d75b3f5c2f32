import ShadingMachine.Proofs.Arrays.Elements
import ShadingMachine.Proofs.Slots.Recovery
import ShadingMachine.Proofs.Storage.Runs
import ShadingMachine.Proofs.Structured.Steps

/-! The place of a loop over the lights. A grid keeps the numbers of the lights that the loop visits
and counts how far it has come; what is left of them are the lights ahead. The instructions that
start a loop and go on with it move this place, and no other instruction does. A sample is one of the
first light ahead, and going on answers whether there is a second. -/
namespace ShadingMachine

/-- Whether an opcode starts a loop over the lights. -/
def Opcode.startsLights : Opcode → Bool
  | illumination .start | illumination .startCategory => true
  | _ => false

namespace Grid

/-- The lights that a loop visits: those that are not ambient and pass the filter, if there is one. -/
def matching (g : Grid) (filter? : Option String) : List Light :=
  g.lights.toList.filter fun l => !l.isAmbient && filter?.all l.matchesFilter

/-- The lights that the loop has still to visit, the one that it is at first. -/
def Ahead (g : Grid) (ls : List Light) : Prop :=
  (g.collected.drop g.cursor).map (g.lights[·]?) = ls.map some

variable {g : Grid} {l : Light} {ls : List Light}

theorem ahead_collectLights (g : Grid) (filter? : Option String) :
    (g.collectLights filter?).Ahead (g.matching filter?) := by
  let wanted (l? : Option Light) : Bool :=
    (l?.map fun l => !l.isAmbient && (filter?.map l.matchesFilter).getD true).getD false
  have hall : (List.range g.lights.size).map (g.lights[·]?) = g.lights.toList.map some := by
    refine List.ext_getElem (by simp) fun k hk _ => ?_
    have hk : k < g.lights.size := by simpa using hk
    simp [hk]
  have hsome : (fun l => !l.isAmbient && filter?.all l.matchesFilter) = wanted ∘ some := by
    funext l
    cases filter? <;> rfl
  calc ((List.range g.lights.size).filter fun k => wanted g.lights[k]?).map (g.lights[·]?)
      = ((List.range g.lights.size).map (g.lights[·]?)).filter wanted := by rw [List.filter_map]; rfl
    _ = (g.lights.toList.map some).filter wanted := by rw [hall]
    _ = (g.matching filter?).map some := by rw [List.filter_map, matching, hsome]

theorem Ahead.currentLight? (h : g.Ahead ls) : g.currentLight? = ls.head? := by
  have hhead : ((g.collected.drop g.cursor).map (g.lights[·]?)).head? = (ls.map some).head? :=
    congrArg List.head? h
  rw [List.head?_map, List.head?_map, List.head?_drop] at hhead
  show (g.collected[g.cursor]? >>= fun k => g.lights[k]?) = ls.head?
  cases hk : g.collected[g.cursor]? with
  | none =>
    rw [hk] at hhead
    exact (Option.map_eq_none_iff.mp hhead.symm).symm
  | some k =>
    rw [hk] at hhead
    obtain ⟨l, hl, hkl⟩ := Option.map_eq_some_iff.mp hhead.symm
    rw [hl]
    exact hkl.symm

/-- Going on leaves the light behind that the loop was at, and says whether there is another. -/
theorem Ahead.nextLight (h : g.Ahead ls) (log : Text.Log) :
    (nextLight.run ⟨g, log⟩).1 = !ls.tail.isEmpty ∧ (nextLight.run ⟨g, log⟩).2.env.Ahead ls.tail := by
  have hlength : g.collected.length - g.cursor = ls.length := by
    simpa using congrArg List.length h
  refine ⟨?_, ?_⟩
  · show decide (g.cursor + 1 < g.collected.length) = _
    rw [Bool.eq_iff_iff, decide_eq_true_iff, Bool.not_eq_true', List.isEmpty_eq_false_iff,
      ← List.length_pos_iff, List.length_tail]
    omega
  · show (g.collected.drop (g.cursor + 1)).map (g.lights[·]?) = ls.tail.map some
    rw [← List.tail_drop, List.map_tail, h, List.map_tail]

/-- A loop starts at the first light that it visits, and says whether there is one. -/
theorem firstLight_collectLights (g : Grid) (filter? : Option String) (log : Text.Log) :
    firstLight.run ⟨g.collectLights filter?, log⟩ =
      (!(g.matching filter?).isEmpty, ⟨g.collectLights filter?, log⟩) := by
  have hlength : (g.collectLights filter?).collected.length = (g.matching filter?).length := by
    simpa [collectLights] using congrArg List.length (g.ahead_collectLights filter?)
  have hempty : (g.collectLights filter?).collected.isEmpty = (g.matching filter?).isEmpty := by
    rw [Bool.eq_iff_iff, List.isEmpty_iff_length_eq_zero, List.isEmpty_iff_length_eq_zero, hlength]
  show (!(g.collectLights filter?).collected.isEmpty, _) = _
  rw [hempty]
  rfl

end Grid

namespace Exec

open Session

variable {s t : Session Grid}

/-- What a step does when there is an instruction. -/
theorem StepsTo.executes {i : Instruction} (h : StepsTo s t) (hi : s.next? = some (.ok i)) :
    ∃ target? u position, dispatch i (s.fetched i) = .ok target? u ∧
      t = { u with machine := { u.machine with position } } := by
  obtain ⟨more, hstep⟩ := h
  rw [step_eq] at hstep
  unfold next? at hi
  rw [hi] at hstep
  obtain ⟨target?, u, hu, hproceed⟩ := bind_eq_ok.mp hstep
  have hplace : Ends (proceed s.machine.segment
      (s.machine.program.segment s.machine.segment).length target?) u
      (fun _ t => ∃ position, t = { u with machine := { u.machine with position } })
      fun _ _ => True := by
    rw [ends_proceed]
    split
    · exact ⟨_, rfl⟩
    · split
      · trivial
      · exact ⟨_, rfl⟩
  obtain ⟨position, ht⟩ := hplace.of_ok hproceed
  exact ⟨target?, u, position, hu, ht⟩

/-- Where there is no instruction a step changes nothing; where there is one, it is executed. -/
theorem StepsTo.cases (h : StepsTo s t) :
    t = s ∨ ∃ i, s.next? = some (.ok i) ∧ ∃ target? u position,
      dispatch i (s.fetched i) = .ok target? u ∧
        t = { u with machine := { u.machine with position } } := by
  cases hi : s.next? with
  | none =>
    obtain ⟨more, hstep⟩ := h
    rw [step_of_next?_eq_none hi] at hstep
    cases hstep
    exact .inl rfl
  | some found =>
    cases found with
    | error e =>
      obtain ⟨more, hstep⟩ := h
      rw [step_eq] at hstep
      unfold next? at hi
      rw [hi] at hstep
      cases hstep
    | ok i => exact .inr ⟨i, rfl, h.executes hi⟩

end Exec

namespace Session

/-- Every slot is accounted for, and the variables of the graphics state are of their kinds. -/
structure Sound (s : Session Grid) : Prop where
  accounts : s.machine.Accounts
  graphics : ∀ x, (s.host.env.graphics.get x).toValue.OfKind x.type x.detail
    (Environment.pointCount s.host.env)

variable {s t : Session Grid} {ls : List Light}

theorem Sound.fetched (h : s.Sound) (i : Instruction) : (s.fetched i).Sound where
  accounts := h.accounts
  graphics x := by
    rw [env_fetched]
    exact h.graphics x

theorem Sound.step (h : s.Sound) (hstep : Exec.StepsTo s t) : t.Sound := by
  have haccounts : t.machine.Accounts := by
    obtain ⟨more, hmore⟩ := hstep
    exact (h.accounts.step s.host).of_ok hmore
  obtain rfl | ⟨i, -, target?, u, position, hu, rfl⟩ := hstep.cases
  · exact h
  · have hkinds := (Exec.ends_dispatch_kinds i (s.fetched i)).of_ok hu
    have hcount : Environment.pointCount u.host.env = Environment.pointCount (s.fetched i).host.env :=
      (Exec.guards_dispatch (Grid.keeps_pointCount _) i (s.fetched i) rfl).of_ok hu
    refine ⟨haccounts, fun x => ?_⟩
    have hx := (h.fetched i).graphics x
    rw [← hcount] at hx
    exact hx.sameKind (hkinds.related.graphics x).value.toSameKind

/-- To take an instruction does not move the place. -/
theorem ahead_fetched (h : s.host.env.Ahead ls) (i : Instruction) :
    (s.fetched i).host.env.Ahead ls := by
  rw [env_fetched]
  exact h

/-- An instruction that does not move the place leaves the lights ahead as they are. -/
theorem ahead_step (h : s.host.env.Ahead ls) (hstep : Exec.StepsTo s t)
    (hi : ∀ i, s.next? = some (.ok i) → i.code.movesLights = false) : t.host.env.Ahead ls := by
  obtain rfl | ⟨i, hnext, target?, u, position, hu, rfl⟩ := hstep.cases
  · exact h
  · have hkeeps : Environment.KeepsInPlace fun g : Grid => g.Ahead ls :=
      Grid.keepsInPlace fun _ _ _ _ _ _ h => h
    have hahead : u.host.env.Ahead ls :=
      (Exec.guards_dispatchInPlace hkeeps i (hi i hnext) (s.fetched i) (ahead_fetched h i)).of_ok hu
    exact hahead

end Session

/-- Whether an opcode samples the light that a loop is at. -/
def Opcode.samplesLight : Opcode → Bool
  | illumination .illuminance | illumination .illuminanceCategory => true
  | _ => false

namespace Exec

variable {i : Instruction} {s t : Session Grid}

theorem dispatch_illumination {f : Illumination} (hi : i.code = .illumination f) :
    (dispatch i : Exec Grid (Option Nat)) = do illumination i f; return none := by
  unfold dispatch
  rw [hi]
  rfl

theorem ends_pop (i : Instruction) (k : Nat) (s : Session Grid) :
    Ends (pop i k) s (fun slots t => k ≤ s.machine.stack.length ∧
      slots = (s.machine.stack.take k).reverse ∧
      t = { s with machine := { s.machine with stack := s.machine.stack.drop k } })
      fun _ _ => True := by
  unfold pop
  rw [ends_bind, ends_machine]
  dsimp only
  split
  · trivial
  · rename_i hlength
    exact ⟨not_lt.mp hlength, rfl, rfl⟩

/-- Operands are taken for a varying result that the environment fills. -/
theorem popped_asked {k : Nat} {type : ValueType}
    {ask : List Value → Value → Mask → Serving Grid Value} (hs : s.machine.Accounts)
    (h : (do let slots ← pop i k; produceAs type .varying slots (asked ask)) s = .ok () t) :
    k ≤ s.machine.stack.length ∧ ∃ out : Value, out.detail = .varying ∧
      out.data.storage = type.storage ∧
      let answer := (ask ((s.machine.stack.take k).reverse.map s.machine.pools.value) out
        s.machine.mask).run s.host
      t.host = answer.2 ∧ ∃ slot, t.machine.stack = slot :: s.machine.stack.drop k ∧
        t.machine.pools.value slot = ⟨type, .varying, answer.1.data⟩ := by
  obtain ⟨slots, u, hpop, hrun⟩ := bind_eq_ok.mp h
  obtain ⟨hlength, rfl, rfl⟩ := (ends_pop i k s).of_ok hpop
  have htaken : s.machine.pools.Accounts
      ((s.machine.stack.take k).reverse + s.machine.stack.drop k : Multiset Slot) := by
    rw [Multiset.coe_reverse, Multiset.coe_add, List.take_append_drop]
    exact hs
  have hargs : (s.machine.stack.take k).reverse.map
      (s.machine.pools.allocate type .varying s.machine.gridSize).2.value =
      (s.machine.stack.take k).reverse.map s.machine.pools.value :=
    List.map_congr_left fun slot hslot =>
      htaken.value_allocate (Multiset.mem_add.mpr (.inl (Multiset.mem_coe.mpr hslot))) type .varying _
  rw [produceAs_run] at hrun
  dsimp only at hrun
  rw [hargs] at hrun
  obtain ⟨-, hdetail, hstorage, -⟩ := htaken.shape_allocate type .varying s.machine.gridSize
  refine ⟨hlength, _, hdetail, hstorage, ?_⟩
  cases hrun
  refine ⟨rfl, _, rfl, ?_⟩
  exact Machine.value_put_new
    (m := { s.machine with stack := s.machine.stack.drop k }) htaken type .varying _

/-- A sample is taken for the value that is third from the top. -/
theorem illuminance_asked {f : Illumination} (hs : s.machine.Accounts)
    (hf : (Opcode.illumination f).samplesLight = true) (h : illumination i f s = .ok () t) :
    ∃ slot, s.machine.stack[2]? = some slot ∧
      ∃ axis angle out : Value, out.detail = .varying ∧ out.data.storage = .float ∧
        let answer := (Grid.illuminance (s.machine.pools.value slot) axis angle out
          s.machine.mask).run s.host
        t.host = answer.2 ∧ ∃ result, t.machine.stack.head? = some result ∧
          t.machine.pools.value result = ⟨.float, .varying, answer.1.data⟩ := by
  cases f with
  | illuminance =>
    obtain ⟨hlength, out, hdetail, hstorage, hhost, result, hstack, hvalue⟩ := popped_asked hs h
    match hslots : s.machine.stack, hlength with
    | angle :: axis :: place :: rest, _ =>
      rw [hslots] at hhost hvalue hstack
      refine ⟨place, rfl, _, _, out, hdetail, hstorage, hhost, result, ?_, hvalue⟩
      rw [hstack]
      rfl
  | illuminanceCategory =>
    obtain ⟨hlength, out, hdetail, hstorage, hhost, result, hstack, hvalue⟩ := popped_asked hs h
    match hslots : s.machine.stack, hlength with
    | angle :: axis :: place :: filter :: rest, _ =>
      rw [hslots] at hhost hvalue hstack
      refine ⟨place, rfl, _, _, out, hdetail, hstorage, hhost, result, ?_, hvalue⟩
      rw [hstack]
      rfl
  | _ => cases hf

end Exec

/-- A varying float, cleared at the points of a mask. -/
theorem Value.getFloat_clear {v : Value} (hdetail : v.detail = .varying)
    (hs : v.data.storage = .float) {mask : Mask} {k : Nat} (hk : k ∈ mask.ones) :
    (v.clear mask).getFloat k = 0 := by
  obtain ⟨type, detail, storage, xs⟩ := v
  obtain rfl : detail = .varying := hdetail
  obtain rfl : storage = .float := hs
  show ((Data.mk .float xs).write .float mask.ones fun _ => (0 : Float32)).get .float k = 0
  by_cases hn : k < (Data.mk .float xs).size
  · rw [Data.get_write rfl _ _ hn, if_pos hk]
  · rw [Data.get_of_size_le (by rw [Data.size_write]; omega)]
    rfl

/-- A varying value, written at the points of a mask. -/
theorem Value.get_write_of_varying {v : Value} {s : Storage} {n k : Nat} (hv : v.IsShaped n)
    (hdetail : v.detail = .varying) (hs : v.type.storage = s) (mask : Mask) (f : Nat → s.Elem)
    (hk : k ∈ mask.ones) (hn : k < n) : (v.write s mask f).get s k = f k := by
  subst hs
  rw [hv.get_write mask f hk hn, hdetail]
  rfl

namespace Grid

variable {g : Grid} {light : Light} {p : Value} {mask : Mask} {n k : Nat}

theorem getTriple_illuminated
    (hx : (g.graphics.get .lightVector).toValue.OfKind .vector .varying n) (hk : k ∈ mask.ones)
    (hn : k < n) : ((g.illuminated light p mask).graphics.get .lightVector).getTriple k =
      -light.incident (p.getTriple k) := by
  unfold illuminated modifyGraphics GraphicsState.modify
  rw [GraphicsState.get_set, if_neg (by decide), GraphicsState.get_set, if_pos rfl]
  exact Value.get_write_of_varying hx.toIsShaped hx.detail_eq (by rw [hx.type_eq]; rfl) mask _ hk hn

theorem getColor_illuminated
    (hx : (g.graphics.get .lightColor).toValue.OfKind .color .varying n) (hk : k ∈ mask.ones)
    (hn : k < n) : ((g.illuminated light p mask).graphics.get .lightColor).get .color k =
      light.radiance (light.incident (p.getTriple k)) := by
  unfold illuminated modifyGraphics GraphicsState.modify
  rw [GraphicsState.get_set, if_pos rfl, GraphicsState.get_set, if_neg (by decide)]
  exact Value.get_write_of_varying hx.toIsShaped hx.detail_eq (by rw [hx.type_eq]; rfl) mask _ hk hn

end Grid

namespace Session

variable {s t : Session Grid} {i : Instruction} {light : Light} {ls : List Light}

/-- The step from one session to the other writes the sample of a light at the running points. -/
def Samples (light : Light) (s t : Session Grid) : Prop :=
  ∃ slot, s.machine.stack[2]? = some slot ∧
    let p := s.machine.pools.value slot
    ∀ k ∈ s.host.env.states.running.ones, k < Environment.pointCount s.host.env →
      (t.host.env.graphics.get .lightVector).getTriple k = -light.incident (p.getTriple k) ∧
      (t.host.env.graphics.get .lightColor).get .color k =
        light.radiance (light.incident (p.getTriple k))

/-- The step from one session to the other leaves zero at the running points, and the direction and
the color of the light as they were. -/
def SamplesNone (s t : Session Grid) : Prop :=
  (∃ slot, t.machine.stack.head? = some slot ∧ ∀ k ∈ s.host.env.states.running.ones,
      (t.machine.pools.value slot).getFloat k = 0) ∧
    t.host.env.graphics.get .lightVector = s.host.env.graphics.get .lightVector ∧
    t.host.env.graphics.get .lightColor = s.host.env.graphics.get .lightColor

theorem sampled (hs : s.Sound) (hstep : Exec.StepsTo s t) (hi : s.next? = some (.ok i))
    (hcode : i.code.samplesLight = true) :
    ∃ slot, s.machine.stack[2]? = some slot ∧
      ∃ axis angle out : Value, out.detail = .varying ∧ out.data.storage = .float ∧
        let answer := (Grid.illuminance (s.machine.pools.value slot) axis angle out
          s.host.env.states.running).run (s.fetched i).host
        t.host = answer.2 ∧ ∃ result, t.machine.stack.head? = some result ∧
          t.machine.pools.value result = ⟨.float, .varying, answer.1.data⟩ := by
  obtain ⟨target?, u, position, hu, rfl⟩ := hstep.executes hi
  cases hf : i.code with
  | illumination f =>
    rw [hf] at hcode
    rw [Exec.dispatch_illumination hf] at hu
    obtain ⟨_, v, hv, hdone⟩ := Exec.bind_eq_ok.mp hu
    cases hdone
    have hasked := Exec.illuminance_asked (hs.fetched i).accounts hcode hv
    exact hasked
  | _ =>
    rw [hf] at hcode
    cases hcode

theorem samples_of_ahead (hs : s.Sound) (hstep : Exec.StepsTo s t) (hi : s.next? = some (.ok i))
    (hcode : i.code.samplesLight = true) (hahead : s.host.env.Ahead (light :: ls)) :
    s.Samples light t := by
  obtain ⟨slot, hslot, axis, angle, out, -, -, hhost, -⟩ := sampled hs hstep hi hcode
  have hlight : (s.fetched i).host.env.currentLight? = some light :=
    (ahead_fetched hahead i).currentLight?
  rw [Grid.illuminance_run, hlight] at hhost
  refine ⟨slot, hslot, fun k hk hn => ?_⟩
  rw [hhost]
  dsimp only
  rw [env_fetched]
  exact ⟨Grid.getTriple_illuminated (hs.graphics .lightVector) hk hn,
    Grid.getColor_illuminated (hs.graphics .lightColor) hk hn⟩

theorem samplesNone_of_ahead (hs : s.Sound) (hstep : Exec.StepsTo s t)
    (hi : s.next? = some (.ok i)) (hcode : i.code.samplesLight = true)
    (hahead : s.host.env.Ahead []) : s.SamplesNone t := by
  obtain ⟨slot, hslot, axis, angle, out, hdetail, hstorage, hhost, result, hresult, hvalue⟩ :=
    sampled hs hstep hi hcode
  have hlight : (s.fetched i).host.env.currentLight? = none :=
    (ahead_fetched hahead i).currentLight?
  rw [Grid.illuminance_run, hlight] at hhost hvalue
  have henv : t.host.env = s.host.env := by
    rw [hhost]
    exact env_fetched s i
  refine ⟨⟨result, hresult, fun k hk => ?_⟩, by rw [henv], by rw [henv]⟩
  rw [hvalue]
  have hzero : (out.clear s.host.env.states.running).getFloat k = 0 :=
    Value.getFloat_clear hdetail hstorage hk
  obtain ⟨type, detail, d⟩ := out
  obtain rfl : detail = .varying := hdetail
  exact hzero

/-- The step from one session to the other leaves a truth on top of the operands. -/
def Answers (b : Bool) (s t : Session Grid) : Prop :=
  ∃ slot, t.machine.stack = slot :: s.machine.stack ∧
    (t.machine.pools.value slot).getFloat 0 = Scalar.ofBool b

end Session

namespace Exec

variable {s t : Session Grid} {i : Instruction} {ls : List Light}

/-- A truth is a uniform operand that can be read back. -/
theorem pushTruth_run (hs : s.machine.Accounts) (b : Bool) :
    ∃ slot pools, pushTruth b s =
        .ok () { s with machine := { s.machine with stack := slot :: s.machine.stack, pools } } ∧
      slot.detail = .uniform ∧ (pools.value slot).getFloat 0 = Scalar.ofBool b := by
  have htaken : s.machine.pools.Accounts (([] : List Slot) + s.machine.stack : Multiset Slot) := by
    rw [Multiset.coe_nil, Multiset.zero_add]
    exact hs
  let new := s.machine.pools.allocate .float .uniform s.machine.gridSize
  let d : Data := ((new.2.value new.1).set .float 0 (Scalar.ofBool b : Float32)).data
  refine ⟨new.1, (s.machine.put .float .uniform [] d).pools, pushUniform_run .float _ s, rfl, ?_⟩
  obtain ⟨-, -, hstorage, hsize⟩ := hs.shape_allocate .float .uniform s.machine.gridSize
  have hpos : 0 < (new.2.value new.1).data.size := hsize.trans_gt Nat.one_pos
  rw [Machine.value_put_new htaken]
  exact (Data.get_set hstorage hpos (Scalar.ofBool b : Float32) 0).trans (if_pos rfl)

/-- To start a loop and to go on with it ends with a truth that is pushed. -/
theorem startIlluminance_run (filter? : Option String) (s : Session Grid) :
    startIlluminance filter? s = pushTruth (!(s.host.env.matching filter?).isEmpty)
      { s with host := ⟨s.host.env.collectLights filter?, s.host.log⟩ } := by
  have hfirst := s.host.env.firstLight_collectLights filter? s.host.log
  have hrun : startIlluminance filter? s =
      pushTruth (Grid.firstLight.run ⟨s.host.env.collectLights filter?, s.host.log⟩).1
        { s with host := (Grid.firstLight.run ⟨s.host.env.collectLights filter?, s.host.log⟩).2 } :=
    rfl
  rw [hrun, hfirst]

theorem advance_run (i : Instruction) (s : Session Grid) :
    illumination i .advance s = pushTruth (Grid.nextLight.run s.host).1
      { s with host := (Grid.nextLight.run s.host).2 } := rfl

end Exec

namespace Session

variable {s t : Session Grid} {i : Instruction} {ls : List Light}

/-- Going on says whether there is a light behind the one that the loop is at. -/
theorem answers_of_advance (hs : s.Sound) (hstep : Exec.StepsTo s t) (hi : s.next? = some (.ok i))
    (hcode : i.code = .illumination .advance) (hahead : s.host.env.Ahead ls) :
    s.Answers (!ls.tail.isEmpty) t ∧ t.host.env.Ahead ls.tail := by
  obtain ⟨target?, u, position, hu, rfl⟩ := hstep.executes hi
  rw [Exec.dispatch_illumination hcode] at hu
  obtain ⟨_, v, hv, hdone⟩ := Exec.bind_eq_ok.mp hu
  cases hdone
  rw [Exec.advance_run] at hv
  obtain ⟨hanswer, hnext⟩ := (ahead_fetched hahead i).nextLight (s.fetched i).host.log
  obtain ⟨slot, pools, hpush, -, hvalue⟩ := Exec.pushTruth_run
    (s := { s.fetched i with host := (Grid.nextLight.run (s.fetched i).host).2 })
    (hs.fetched i).accounts (Grid.nextLight.run (s.fetched i).host).1
  rw [hpush] at hv
  cases hv
  exact ⟨⟨slot, rfl, by rw [← hanswer]; exact hvalue⟩, hnext⟩

end Session

end ShadingMachine
