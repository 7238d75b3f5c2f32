import ShadingMachine.Proofs.Mask.Points
import ShadingMachine.Proofs.Structured.Steps

/-! The parts of structured code on their way through a segment: code, a condition, entering and
leaving a scope, the choice of the points that run, and the jumps. -/
namespace ShadingMachine

namespace RunningStates

variable {n : Nat} {s : RunningStates}

theorem IsSized.push (h : s.IsSized n) : s.push.IsSized n :=
  ⟨h.1, h.2.1, List.forall_mem_cons.mpr ⟨h.1, h.2.2⟩⟩

theorem IsSized.select (h : s.IsSized n) : s.select.IsSized n := ⟨h.2.1, h.2.1, h.2.2⟩

theorem IsSized.invert (h : s.IsSized n) : s.invert.IsSized n := by
  obtain ⟨running, current, saved, spare⟩ := s
  cases saved with
  | nil => exact ⟨h.1, h.2.1, h.2.2⟩
  | cons m ms => exact ⟨h.1, h.2.1, h.2.2⟩

theorem IsSized.setCurrent (h : s.IsSized n) (f : Nat → Bool) : (s.setCurrent f).IsSized n :=
  ⟨h.1, (Mask.size_foldl_insert _ _).trans h.1, h.2.2⟩

end RunningStates

namespace Session

variable {n i k l : Nat} {c ws : List Statement} {s t u : Session Grid} {live live' : Nat → Bool}

/-- A machine on a grid of `n` points comes to a place with nothing on the stack, and leaves all
points alone that are not live. -/
structure Passes (n : Nat) (live : Nat → Bool) (s : Session Grid) (k : Nat) (t : Session Grid) :
    Prop extends Goes s k t where
  sized : t.IsSized n
  kinds : s.Related Variable.SameKind t
  idle : ∀ i < n, live i = false → t.point i = s.point i

/-- No point is live. -/
abbrev noPoint : Nat → Bool := fun _ => false

theorem Passes.trans (h : s.Passes n live k t) (h' : t.Passes n live l u) :
    s.Passes n live l u where
  toGoes := h.toGoes.trans h'.toGoes
  sized := h'.sized
  kinds := trans_of (Related Variable.SameKind) h.kinds h'.kinds
  idle i hi hlive := (h'.idle i hi hlive).trans (h.idle i hi hlive)

theorem Passes.mono (h : s.Passes n live k t) (hlive : ∀ i < n, live i = true → live' i = true) :
    s.Passes n live' k t where
  toGoes := h.toGoes
  sized := h.sized
  kinds := h.kinds
  idle i hi hidle := h.idle i hi (by
    cases hl : live i with
    | false => rfl
    | true => rw [hlive i hi hl] at hidle; exact hidle)

/-- Where no point was live, whichever points are. -/
theorem Passes.widen (h : s.Passes n noPoint k t) (live : Nat → Bool) : s.Passes n live k t :=
  h.mono (by simp)

theorem Passes.point_eq (h : s.Passes n noPoint k t) (hi : i < n) : t.point i = s.point i :=
  h.idle i hi rfl

theorem Alike.sameVariables (h : u.Alike t.masked) : u.SameVariables t := ⟨h.locals, h.graphics⟩

theorem IsSized.pos (hs : s.IsSized n) : 0 < n := by
  rw [← hs.pointCount]
  exact Grid.pointCount_pos _

/-- The machine has executed code that succeeds. -/
theorem goes_code (hs : s.IsSized n) (hc : ∀ w ∈ c, w.operation.code.isElementwise = true)
    (hheld : s.text.Holds s.machine.position (c ++ ws))
    (hu : Exec.runCode c s.masked = .ok () u) :
    ∃ t, s.Goes (s.machine.position + codeSize c) t ∧ u.Alike t.masked ∧
      t.host.env.states = s.host.env.states ∧ t.machine.gridSize = n ∧
      Environment.pointCount t.host.env = n ∧ t.machine.Accounts := by
  have hself : s.masked.Alike s.masked := ⟨rfl, rfl, rfl, rfl, rfl, rfl, rfl⟩
  obtain ⟨t, hgoes, halike, hstates⟩ := goes_runCode hc hheld hself hu
  obtain ⟨t', -, hwork⟩ := hs.working_runCode hs.pos hc hu
  refine ⟨t, hgoes, halike, hstates, halike.gridSize.trans hwork.gridSize, ?_, ?_⟩
  · have hresolution : t.host.env.resolution = u.host.env.resolution := halike.resolution
    rw [Grid.pointCount_eq, hresolution]
    exact hwork.pointCount
  · have hpools : t.machine.pools = u.machine.pools := halike.pools
    have hstack : t.machine.stack = u.machine.stack := halike.stack
    unfold Machine.Accounts
    rw [hpools, hstack]
    simpa using hwork.accounts

/-- Code does at every running point what it does at the point alone, and nothing at the others. -/
theorem passes_code (hs : s.IsSized n) (hc : s.IsNeutral n c)
    (hheld : s.text.Holds s.machine.position c) :
    ∃ t, s.Passes n s.Runs (s.machine.position + codeSize c) t ∧
      t.host.env.states = s.host.env.states ∧
      ∀ i < n, s.Runs i = true → ∀ q, (s.point i).after? c = some q → t.point i = q := by
  obtain ⟨u, hu, hstack⟩ := hc.exists_ok hs
  have hheld' : s.text.Holds s.machine.position (c ++ []) := by rwa [List.append_nil]
  obtain ⟨t, hgoes, halike, hstates, hsize, hcount, haccounts⟩ :=
    goes_code hs hc.elementwise hheld' hu
  have hrelated {D : Detail → Prop} {i : Nat}
      (hi : ∀ d, D d → i ∉ s.host.env.states.running.ones) :
      s.Related (Variable.KeepsAt D i) t := by
    exact trans_of (Related (Variable.KeepsAt D i)) ((Exec.related_runCode hc hi).of_ok hu)
      halike.sameVariables.related
  have hkinds : s.Related Variable.SameKind t :=
    (hrelated (D := fun _ => False) (i := 0) fun _ => False.elim).imp Variable.KeepsAt.sameKind
  refine ⟨t, ⟨hgoes, ?_, hkinds, fun i hi hidle => ?_⟩, hstates, fun i hi hruns q hq => ?_⟩
  · exact
      { gridSize := hsize
        pointCount := hcount
        stack := halike.stack.trans hstack
        accounts := haccounts
        locals := hkinds.locals.isSized hs.locals
        graphics := fun x => (hkinds.graphics x).value.isSized (hs.graphics x)
        states := by rw [hstates]; exact hs.states }
  · refine Related.point_eq (hrelated fun _ _ hones => ?_) hs
    have hget := (Mask.mem_ones (by rw [hs.states.1]; exact hi)).mp hones
    rw [show s.host.env.states.running.get i = false from hidle] at hget
    cases hget
  · obtain ⟨v, hv, rfl⟩ := Point.exists_of_after? hq
    rw [halike.sameVariables.point_eq i]
    exact (hs.runCode_point hi hruns hc.elementwise hu hv).1

/-! Statements that change the states of the points only -/

/-- The session with other states of the points. -/
def withStates (s : Session Grid) (r : RunningStates) : Session Grid :=
  { s with host := { s.host with env := { s.host.env with states := r } } }

theorem sameVariables_fetched (s : Session Grid) (j : Instruction) :
    s.SameVariables (s.fetched j) := ⟨rfl, by rw [env_fetched]⟩

/-- The same variables on the same grid, whatever the states. -/
theorem IsSized.of_sameVariables (hs : s.IsSized n) (h : s.SameVariables t)
    (hsize : t.machine.gridSize = n) (hcount : Environment.pointCount t.host.env = n)
    (hstack : t.machine.stack = []) (haccounts : t.machine.Accounts)
    (hstates : t.host.env.states.IsSized n) : t.IsSized n where
  gridSize := hsize
  pointCount := hcount
  stack := hstack
  accounts := haccounts
  locals := by
    rw [h.locals]
    exact hs.locals
  graphics := by
    rw [h.graphics]
    exact hs.graphics
  states := hstates

/-- A statement that at most changes the states of the points, and says where to go. -/
theorem passes_control (hs : s.IsSized n) {w : Statement}
    (hheld : s.text.Holds s.machine.position (w :: ws)) (target? : Option Nat) {r : RunningStates}
    (hr : r.IsSized n) (htarget : ∀ k, target? = some k → k ≤ s.text.length)
    (hd : Exec.dispatch (w.instruction s.machine.position)
      (s.fetched (w.instruction s.machine.position)) =
        .ok target? ((s.fetched (w.instruction s.machine.position)).withStates r)) :
    ∃ t, s.Passes n noPoint (target?.getD (s.machine.position + w.size)) t ∧
      t.host.env.states = r := by
  have hfetched := s.sameVariables_fetched (w.instruction s.machine.position)
  have hcount (j : Instruction) : Environment.pointCount (s.fetched j).host.env = n := by
    rw [env_fetched]
    exact hs.pointCount
  cases target? with
  | none =>
    have hvariables : s.SameVariables
        ((s.fetched (w.instruction s.machine.position)).withStates r) := ⟨rfl, hfetched.graphics⟩
    exact ⟨_, ⟨goes_next hheld hd, hs.of_sameVariables hvariables hs.gridSize (hcount _) hs.stack
      hs.accounts hr, hvariables.related, fun i _ _ => hvariables.point_eq i⟩, rfl⟩
  | some target =>
    let t : Session Grid := (s.fetched (w.instruction s.machine.position)).withStates r
    have hvariables : s.SameVariables
        { t with machine := { t.machine with position := target } } := ⟨rfl, hfetched.graphics⟩
    exact ⟨_, ⟨goes_jump hheld hd (htarget target rfl), hs.of_sameVariables hvariables
      hs.gridSize (hcount _) hs.stack hs.accounts hr, hvariables.related,
      fun i _ _ => hvariables.point_eq i⟩, rfl⟩

/-- A statement of a scope changes the states of the points and nothing else. -/
theorem passes_scope (hs : s.IsSized n) {name : String} {f : Flow}
    (hheld : s.text.Holds s.machine.position (.scope name f :: ws)) {r : RunningStates}
    (hr : r.IsSized n) (hflow : ∀ j (u : Session Grid), u.host.env.states = s.host.env.states →
      Exec.flow j f u = .ok none (u.withStates r)) :
    ∃ t, s.Passes n noPoint (s.machine.position + 1) t ∧ t.host.env.states = r :=
  passes_control hs hheld none hr (by simp) (hflow _ _ (by rw [env_fetched]))

theorem passes_enterScope (hs : s.IsSized n) {name : String}
    (hheld : s.text.Holds s.machine.position (.scope name .enterScope :: ws)) :
    ∃ t, s.Passes n noPoint (s.machine.position + 1) t ∧
      t.host.env.states = s.host.env.states.push :=
  passes_scope hs hheld hs.states.push fun _ _ hu => by rw [← hu]; rfl

theorem passes_selectCurrent (hs : s.IsSized n) {name : String}
    (hheld : s.text.Holds s.machine.position (.scope name .selectCurrent :: ws)) :
    ∃ t, s.Passes n noPoint (s.machine.position + 1) t ∧
      t.host.env.states = s.host.env.states.select :=
  passes_scope hs hheld hs.states.select fun _ _ hu => by rw [← hu]; rfl

theorem passes_invertScope (hs : s.IsSized n) {name : String}
    (hheld : s.text.Holds s.machine.position (.scope name .invertScope :: ws)) :
    ∃ t, s.Passes n noPoint (s.machine.position + 1) t ∧
      t.host.env.states = s.host.env.states.invert :=
  passes_scope hs hheld hs.states.invert fun _ _ hu => by rw [← hu]; rfl

/-- The points run again that ran when the scope was entered. -/
theorem passes_leaveScope (hs : s.IsSized n) {name : String} {m : Mask} {ms : List Mask}
    (hheld : s.text.Holds s.machine.position (.scope name .leaveScope :: ws))
    (hsaved : s.host.env.states.saved = m :: ms) :
    ∃ t, s.Passes n noPoint (s.machine.position + 1) t ∧
      t.host.env.states.running = m ∧ t.host.env.states.saved = ms := by
  let r : RunningStates := { s.host.env.states with
    running := m, saved := ms, spare := s.host.env.states.running :: s.host.env.states.spare }
  have hpop : s.host.env.states.pop? = some r := RunningStates.pop?_of_saved hsaved
  have hr : r.IsSized n := by
    obtain ⟨-, hcurrent, hall⟩ := hs.states
    rw [hsaved, List.forall_mem_cons] at hall
    exact ⟨hall.1, hcurrent, hall.2⟩
  obtain ⟨t, ht, hstates⟩ := passes_scope hs hheld hr fun j u hu => by
    have hleave : Exec.leaveScope j u = .ok () (u.withStates r) := by
      refine Exec.bind_eq_ok.mpr ⟨u.host.env, u, rfl, ?_⟩
      rw [Grid.environment_states, hu, hpop]
      rfl
    exact Exec.bind_eq_ok.mpr ⟨(), _, hleave, rfl⟩
  exact ⟨t, ht, by rw [hstates], by rw [hstates]⟩

/-- A jump that is taken if no point runs. -/
theorem passes_jumpNoRunning (hs : s.IsSized n) {name : String} {l : Label}
    (hheld : s.text.Holds s.machine.position (.jump name .jumpNoRunning l :: ws))
    (hl : l.position ≤ s.text.length) :
    ∃ t, s.Passes n noPoint
      (if s.host.env.states.running.hasNone then l.position else s.machine.position + 2) t ∧
      t.host.env.states = s.host.env.states := by
  have hjump (j : Instruction) (u : Session Grid) (hj : j.target = .ok l.position)
      (hu : u.host.env.states = s.host.env.states) : Exec.flow j .jumpNoRunning u =
        .ok (if s.host.env.states.running.hasNone then some l.position else none)
          (u.withStates s.host.env.states) := by
    rw [← hu]
    show (do
      let target ← ofExcept j.target
      return if (Environment.states (← Exec.environment)).running.hasNone then some target
        else none : Exec Grid (Option Nat)) u = _
    rw [hj]
    rfl
  cases hnone : s.host.env.states.running.hasNone with
  | true =>
    rw [hnone] at hjump
    exact passes_control hs hheld (some l.position) hs.states
      (fun k hk => Option.some.inj hk ▸ hl) (hjump _ _ rfl (by rw [env_fetched]))
  | false =>
    rw [hnone] at hjump
    exact passes_control hs hheld none hs.states (by simp)
      (hjump _ _ rfl (by rw [env_fetched]))

theorem passes_jump (hs : s.IsSized n) {name : String} {l : Label}
    (hheld : s.text.Holds s.machine.position (.jump name .jump l :: ws))
    (hl : l.position ≤ s.text.length) :
    ∃ t, s.Passes n noPoint l.position t ∧ t.host.env.states = s.host.env.states := by
  refine passes_control hs hheld (some l.position) hs.states
    (fun k hk => Option.some.inj hk ▸ hl) ?_
  rw [← env_fetched s ((Statement.jump name .jump l).instruction s.machine.position)]
  rfl

/-! Conditions -/

/-- The condition is taken from the stack. -/
theorem dispatch_setCurrent {name : String} {slot : Slot} {rest : List Slot} (k : Nat)
    (hstack : s.machine.stack = slot :: rest) :
    Exec.dispatch ((Statement.scope name .setCurrent).instruction k) s =
      .ok none (withStates
        { s with machine := { s.machine with
          stack := rest
          pools := s.machine.pools.releaseAll [slot] } }
        (s.host.env.states.setCurrent fun i =>
          Scalar.holds ((s.machine.pools.value slot).getFloat i))) := by
  obtain ⟨⟨program, config, locals, stack, pools, gridSize, segment, position, mask⟩, host⟩ := s
  obtain rfl : stack = slot :: rest := hstack
  rfl

theorem goes_setCurrent {name : String} {slot : Slot} (hstack : s.machine.stack = [slot])
    (haccounts : s.machine.Accounts)
    (hheld : s.text.Holds s.machine.position (.scope name .setCurrent :: ws)) :
    ∃ t, s.Goes (s.machine.position + 1) t ∧ s.SameVariables t ∧
      t.machine.gridSize = s.machine.gridSize ∧
      Environment.pointCount t.host.env = Environment.pointCount s.host.env ∧
      t.machine.stack = [] ∧ t.machine.Accounts ∧ t.host.env.states =
        s.host.env.states.setCurrent fun i =>
          Scalar.holds ((s.machine.pools.value slot).getFloat i) := by
  have hgoes := goes_next hheld (dispatch_setCurrent (s := s.fetched _) _ hstack)
  refine ⟨_, hgoes, ⟨rfl, ?_⟩, rfl, ?_, rfl, ?_, ?_⟩
  · simp [withStates]
  · simp only [withStates, env_fetched]
    rfl
  · unfold Machine.Accounts at haccounts
    rw [hstack, ← Multiset.cons_coe] at haccounts
    exact haccounts.release
  · simp only [withStates, env_fetched]
    rfl

/-- A condition selects the running points where it holds, and changes nothing else. -/
theorem passes_condition (hs : s.IsSized n) (hc : s.IsCondition n c) {name : String}
    (hheld : s.text.Holds s.machine.position (c ++ .scope name .setCurrent :: ws)) :
    ∃ t f, s.Passes n noPoint (s.machine.position + codeSize c + 1) t ∧
      t.host.env.states = s.host.env.states.setCurrent f ∧
      ∀ i < n, s.Runs i = true → ∀ b, (s.point i).holds? c = some b → f i = b := by
  obtain ⟨u, hu, slot, hstack, -⟩ := hc.exists_ok hs
  obtain ⟨t, hgoes, halike, hstates, hsize, hcount, haccounts⟩ :=
    goes_code hs hc.elementwise hheld hu
  have hvariables := (Exec.variables_runCode hc).of_ok hu
  have hheld' : t.text.Holds t.machine.position (.scope name .setCurrent :: ws) := by
    rw [hgoes.text_eq, hgoes.position]
    exact hheld.append_right
  obtain ⟨t', hgoes', hsame, hsize', hcount', hstack', haccounts', hstates'⟩ :=
    goes_setCurrent (s := t) (halike.stack.trans hstack) haccounts hheld'
  have hall : s.SameVariables t' := (hvariables.trans halike.sameVariables).trans hsame
  rw [hstates] at hstates'
  rw [hgoes.position] at hgoes'
  have hsized : t'.IsSized n := hs.of_sameVariables hall (hsize'.trans hsize) (hcount'.trans hcount)
    hstack' haccounts' (by rw [hstates']; exact hs.states.setCurrent _)
  refine ⟨t', _, ⟨hgoes.trans hgoes', hsized, hall.related, fun i _ _ => hall.point_eq i⟩,
    hstates', fun i hi hruns b hb => ?_⟩
  obtain ⟨v, slot', hv, hslot', rfl⟩ := Point.exists_of_holds? hb
  have hpoint := (hs.runCode_point hi hruns hc.elementwise hu hv).2
  rw [hstack, hslot', List.forall₂_cons] at hpoint
  have hpools : t.machine.pools = u.machine.pools := halike.pools
  rw [hpools]
  exact congrArg Scalar.holds (hpoint.1.get rfl .float)

end Session

end ShadingMachine
