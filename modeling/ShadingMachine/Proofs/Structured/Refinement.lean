import Mathlib.Data.Finset.Lattice.Fold
import Mathlib.Data.Finset.Range
import ShadingMachine.Proofs.Structured.Assignment
import ShadingMachine.Proofs.Structured.Scope

/-! Structured code over a grid is at every running point the ordinary program that can be read off
it. Points may take different ways and leave a loop after different numbers of rounds; each of them
ends with its own result, the others are left alone, and the scopes are as they were. -/
namespace ShadingMachine

/-- Where a scope has been entered. -/
theorem RunningStates.invert_of_saved {r : RunningStates} {m : Mask} {ms : List Mask}
    (h : r.saved = m :: ms) : r.invert = { r with running := r.running.complement.inter m } := by
  unfold invert
  rw [h]

namespace Block

/-- The parts of the block are code and conditions, on `n` points and for variables of the kinds
that they are of in the session. -/
def Admissible (n : Nat) (s : Session Grid) : Block → Prop
  | code c => s.IsNeutral n c
  | seq b b' => b.Admissible n s ∧ b'.Admissible n s
  | branch _ _ c yes no => s.IsCondition n c ∧ yes.Admissible n s ∧ no.Admissible n s
  | loop _ _ c body => s.IsCondition n c ∧ body.Admissible n s

theorem Admissible.of_related {n : Nat} {s t : Session Grid} {b : Block} (h : b.Admissible n s)
    (hst : s.Related Variable.SameKind t) : b.Admissible n t := by
  induction b with
  | code c => exact Session.IsNeutral.of_related h hst
  | seq b b' ih ih' => exact ⟨ih h.1, ih' h.2⟩
  | branch _ _ c yes no ihyes ihno => exact ⟨h.1.of_related hst, ihyes h.2.1, ihno h.2.2⟩
  | loop _ _ c body ih => exact ⟨h.1.of_related hst, ih h.2⟩

/-! What a block ensures at a point -/

/-- Read at the point the block ends, and what it leaves is as asked. -/
def Ensures (b : Block) (A : Point → Prop) (p : Point) : Prop := ∃ q, b.Computes p q ∧ A q

/-- The loop ends after at most so many rounds, and what it leaves is as asked. -/
def EndsWithin (c : List Statement) (body : Block) (A : Point → Prop) : Nat → Point → Prop
  | 0, p => p.holds? c = some false ∧ A p
  | k + 1, p => (p.holds? c = some false ∧ A p) ∨
    (p.holds? c = some true ∧ body.Ensures (EndsWithin c body A k) p)

variable {l l' : Nat} {c : List Statement} {b b' yes no body : Block} {A B : Point → Prop}
  {p : Point}

theorem Ensures.imp (h : b.Ensures A p) (hAB : ∀ q, A q → B q) : b.Ensures B p :=
  let ⟨q, hq, hA⟩ := h
  ⟨q, hq, hAB q hA⟩

theorem Ensures.seq (h : (seq b b').Ensures A p) : b.Ensures (b'.Ensures A) p := by
  obtain ⟨q, hq, hA⟩ := h
  cases hq with
  | seq h h' => exact ⟨_, h, q, h', hA⟩

theorem Ensures.branch (h : (branch l l' c yes no).Ensures A p) :
    ∃ v, p.holds? c = some v ∧ (v = true → yes.Ensures A p) ∧ (v = false → no.Ensures A p) := by
  obtain ⟨q, hq, hA⟩ := h
  cases hq with
  | branch_yes hv h => exact ⟨true, hv, fun _ => ⟨q, h, hA⟩, by simp⟩
  | branch_no hv h => exact ⟨false, hv, by simp, fun _ => ⟨q, h, hA⟩⟩

theorem EndsWithin.mono {k m : Nat} (hkm : k ≤ m) (h : EndsWithin c body A k p) :
    EndsWithin c body A m p := by
  induction m generalizing k p with
  | zero =>
    obtain rfl : k = 0 := by omega
    exact h
  | succ m ih =>
    cases k with
    | zero => exact .inl h
    | succ k =>
      exact h.imp_right fun h => ⟨h.1, h.2.imp fun q hq => ih (by omega) hq⟩

/-- What the condition says of a loop that ends: it is over, or there is a round less to go. -/
theorem EndsWithin.exists_holds {k : Nat} (h : EndsWithin c body A k p) :
    ∃ v, p.holds? c = some v ∧ (v = false → A p) ∧
      (v = true → ∃ m, k = m + 1 ∧ body.Ensures (EndsWithin c body A m) p) := by
  cases k with
  | zero => exact ⟨false, h.1, fun _ => h.2, by simp⟩
  | succ k =>
    rcases h with h | h
    · exact ⟨false, h.1, fun _ => h.2, by simp⟩
    · exact ⟨true, h.1, by simp, fun _ => ⟨k, rfl, h.2⟩⟩

/-- A loop that ends does so after some number of rounds, by induction on how it ends. -/
theorem Ensures.loop (h : (loop l l' c body).Ensures A p) : ∃ k, EndsWithin c body A k p := by
  obtain ⟨q, hq, hA⟩ := h
  generalize hb : Block.loop l l' c body = b at hq
  induction hq with
  | code | seq | branch_yes | branch_no => cases hb
  | loop_done hv =>
    cases hb
    exact ⟨0, hv, hA⟩
  | loop_again hv hbody _ _ ih =>
    obtain ⟨k, hk⟩ := ih hA hb
    cases hb
    exact ⟨k + 1, .inr ⟨hv, _, hbody, hk⟩⟩

end Block

namespace Session

variable {n k m : Nat} {ws : List Statement} {s t u : Session Grid} {live : Nat → Bool}
  {A : Nat → Point → Prop}

/-- A block has been executed: the points that run have their results, and the scopes are as they
were. -/
structure Executes (n : Nat) (A : Nat → Point → Prop) (s : Session Grid) (k : Nat)
    (t : Session Grid) : Prop extends Passes n s.Runs s k t where
  running : t.host.env.states.running = s.host.env.states.running
  saved : t.host.env.states.saved = s.host.env.states.saved
  result : ∀ i < n, s.Runs i = true → A i (t.point i)

/-- What stands at the place that the machine has come to. -/
theorem Passes.holds (h : s.Passes n live k t) (hheld : s.text.Holds k ws) :
    t.text.Holds t.machine.position ws := by
  rw [h.text_eq, h.position]
  exact hheld

theorem Passes.at_place (h : s.Passes n live k t) (hk : k = m) : s.Passes n live m t := hk ▸ h

/-- By as many elements further on. -/
theorem Passes.further (h : s.Passes n live k t)
    (h' : t.Passes n live (t.machine.position + m) u) : s.Passes n live (k + m) u := by
  rw [h.position] at h'
  exact h.trans h'

end Session

/-- Wherever the block stands, it does at all running points what is read off it. -/
def Block.IsPerPoint (n : Nat) (b : Block) : Prop :=
  ∀ (s : Session Grid) (A : Nat → Point → Prop), s.IsSized n → b.Admissible n s →
    s.text.Holds s.machine.position (b.statements s.machine.position) →
    (∀ i < n, s.Runs i = true → b.Ensures (A i) (s.point i)) →
    ∃ t, s.Executes n A (s.machine.position + b.size) t

namespace Block

open Session

variable {n l l' : Nat} {c : List Statement} {b b' yes no body : Block}

theorem isPerPoint_code (c : List Statement) : (code c).IsPerPoint n := by
  intro s A hs hb hheld hA
  obtain ⟨t, hpasses, hstates, hpoint⟩ := passes_code hs hb hheld
  refine ⟨t, hpasses, by rw [hstates], by rw [hstates], fun i hi hruns => ?_⟩
  obtain ⟨q, hq, hq'⟩ := hA i hi hruns
  cases hq with
  | code hafter =>
    rw [hpoint i hi hruns q hafter]
    exact hq'

theorem isPerPoint_seq (hb : b.IsPerPoint n) (hb' : b'.IsPerPoint n) :
    (seq b b').IsPerPoint n := by
  intro s A hs hadmissible hheld hA
  obtain ⟨t, ht⟩ := hb s (fun i => b'.Ensures (A i)) hs hadmissible.1 hheld.append_left
    fun i hi hruns => (hA i hi hruns).seq
  have hruns (i : Nat) : t.Runs i = s.Runs i := congrArg (Mask.get · i) ht.running
  have hheld' : t.text.Holds t.machine.position (b'.statements t.machine.position) := by
    rw [ht.text_eq, ht.position]
    simpa using hheld.append_right
  obtain ⟨u, hu⟩ := hb' t A ht.sized (hadmissible.2.of_related ht.kinds) hheld'
    fun i hi hi' => ht.result i hi (hruns i ▸ hi')
  have hpasses := ht.toPasses.further (hu.toPasses.mono fun i _ hi => (hruns i).symm.trans hi)
  exact ⟨u, hpasses.at_place (Nat.add_assoc ..), hu.running.trans ht.running,
    hu.saved.trans ht.saved, fun i hi hi' => hu.result i hi ((hruns i).trans hi')⟩

/-- A block that is jumped over if no point runs. -/
theorem executes_guarded {s : Session Grid} {A : Nat → Point → Prop} {ws : List Statement}
    {name : String} {k : Nat} (hb : b.IsPerPoint n) (hs : s.IsSized n)
    (hadmissible : b.Admissible n s) (htidy : s.host.env.states.running.Tidy)
    (hk : s.machine.position = k) (hheld : s.text.Holds k
      (.jump name .jumpNoRunning ⟨l, k + 2 + b.size⟩ :: (b.statements (k + 2) ++ ws)))
    (hA : ∀ i < n, s.Runs i = true → b.Ensures (A i) (s.point i)) :
    ∃ t, s.Executes n A (k + 2 + b.size) t := by
  subst hk
  have hle := hheld.le
  simp only [codeSize_cons, Statement.size_jump, codeSize_append, codeSize_statements] at hle
  obtain ⟨t, ht, hstates⟩ := passes_jumpNoRunning hs hheld (by dsimp only; omega)
  have hruns (i : Nat) : t.Runs i = s.Runs i :=
    congrArg (fun r : RunningStates => r.running.get i) hstates
  cases hnone : s.host.env.states.running.hasNone with
  | true =>
    have hidle := (Mask.hasNone_iff htidy).mp hnone
    rw [hs.states.1] at hidle
    rw [if_pos hnone] at ht
    refine ⟨t, ht.widen _, by rw [hstates], by rw [hstates], fun i hi hi' => ?_⟩
    rw [show s.Runs i = false from hidle i hi] at hi'
    cases hi'
  | false =>
    rw [hnone, if_neg Bool.false_ne_true] at ht
    have hheld' : t.text.Holds t.machine.position (b.statements t.machine.position) := by
      refine ht.holds ?_
      rw [ht.position]
      exact hheld.tail.append_left
    obtain ⟨u, hu⟩ := hb t A ht.sized (hadmissible.of_related ht.kinds) hheld'
      fun i hi hi' => by
        rw [ht.point_eq hi]
        exact hA i hi (hruns i ▸ hi')
    have hpasses := (ht.widen s.Runs).further
      (hu.toPasses.mono fun i _ hi => (hruns i).symm.trans hi)
    exact ⟨u, hpasses, by rw [hu.running, hstates], by rw [hu.saved, hstates],
      fun i hi hi' => hu.result i hi ((hruns i).trans hi')⟩

/-- Each point of a branch goes the way that its own condition says. The two alternatives run one
after the other; the points of one wait while the other runs. -/
theorem isPerPoint_branch (hyes : yes.IsPerPoint n) (hno : no.IsPerPoint n) :
    (branch l l' c yes no).IsPerPoint n := by
  intro s A hs hadmissible hheld hA
  obtain ⟨hc, hadmissible, hadmissible'⟩ := hadmissible
  simp only [statements, List.append_assoc, List.cons_append, List.nil_append] at hheld
  -- the condition selects the points that run first
  obtain ⟨s₁, f, h₁, hstates₁, hf⟩ := passes_condition hs hc hheld
  have hheld₁ := hheld.append_right.tail
  obtain ⟨s₂, h₂, hstates₂⟩ := passes_enterScope h₁.sized (h₁.holds hheld₁)
  replace h₂ := h₁.further h₂
  obtain ⟨s₃, h₃, hstates₃⟩ := passes_selectCurrent h₂.sized (h₂.holds hheld₁.tail)
  replace h₃ := h₂.further h₃
  rw [hstates₂, hstates₁] at hstates₃
  have hruns₃ (i : Nat) (hi : i < n) : s₃.Runs i = (s.Runs i && f i) := by
    unfold Runs
    rw [hstates₃]
    exact RunningStates.get_setCurrent _ f (by rw [RunningStates.size, hs.states.1]; exact hi)
  have hheld₃ := h₃.text_eq ▸ hheld₁.tail.tail
  obtain ⟨s₄, h₄⟩ := executes_guarded (A := A) hyes h₃.sized (hadmissible.of_related h₃.kinds)
    (by rw [hstates₃]; exact RunningStates.tidy_setCurrent _ f) h₃.position hheld₃
    fun i hi hruns => by
      rw [hruns₃ i hi, Bool.and_eq_true] at hruns
      obtain ⟨v, hv, hyes, -⟩ := (hA i hi hruns.1).branch
      rw [h₃.point_eq hi]
      exact hyes ((hf i hi hruns.1 v hv).symm.trans hruns.2)
  have hlive₃ (i : Nat) (hi : i < n) (hruns : s₃.Runs i = true) : s.Runs i = true := by
    rw [hruns₃ i hi, Bool.and_eq_true] at hruns
    exact hruns.1
  have hsaved₄ : s₄.host.env.states.saved =
      s.host.env.states.running :: s.host.env.states.saved := by rw [h₄.saved, hstates₃]; rfl
  have hpass₄ := (h₃.widen s.Runs).trans (h₄.toPasses.mono hlive₃)
  -- and then the others run
  have hheld₄ := hheld₁.tail.tail.tail.append_right
  rw [codeSize_statements] at hheld₄
  obtain ⟨s₅, h₅, hstates₅⟩ := passes_invertScope h₄.sized (hpass₄.holds hheld₄)
  rw [RunningStates.invert_of_saved hsaved₄] at hstates₅
  have hpass₅ := hpass₄.further (h₅.widen _)
  have hruns₅ (i : Nat) (hi : i < n) : s₅.Runs i = (!s₃.Runs i && s.Runs i) := by
    unfold Runs
    rw [hstates₅, h₄.running]
    have hsize : s₃.host.env.states.running.size = n := h₃.sized.states.1
    rw [Mask.get_inter (by rw [Mask.size_complement, hsize, hs.states.1]), Mask.get_complement,
      hsize]
    simp [hi]
  have hpoint₅ (i : Nat) (hi : i < n) : s₅.point i = s₄.point i := h₅.point_eq hi
  obtain ⟨s₆, h₆⟩ := executes_guarded (A := A) hno h₅.sized (hadmissible'.of_related hpass₅.kinds)
    (by rw [hstates₅]; exact (Mask.tidy_mapWords _ _).inter _) hpass₅.position
    (hpass₅.text_eq ▸ hheld₄.tail) fun i hi hruns => by
      rw [hruns₅ i hi, Bool.and_eq_true, Bool.not_eq_true'] at hruns
      obtain ⟨v, hv, -, hno⟩ := (hA i hi hruns.2).branch
      have hfalse : f i = false := by simpa [hruns₃ i hi, hruns.2] using hruns.1
      rw [hpoint₅ i hi, h₄.idle i hi hruns.1, h₃.point_eq hi]
      exact hno ((hf i hi hruns.2 v hv).symm.trans hfalse)
  have hlive₅ (i : Nat) (hi : i < n) (hruns : s₅.Runs i = true) : s.Runs i = true := by
    rw [hruns₅ i hi, Bool.and_eq_true] at hruns
    exact hruns.2
  have hpass₆ := hpass₅.trans (h₆.toPasses.mono hlive₅)
  -- all of them run again
  have hheld₆ := hheld₄.tail.tail.append_right
  rw [codeSize_statements] at hheld₆
  have hsaved₆ : s₆.host.env.states.saved =
      s.host.env.states.running :: s.host.env.states.saved := by
    rw [h₆.saved, hstates₅]
    exact hsaved₄
  obtain ⟨s₇, h₇, hrunning₇, hsaved₇⟩ :=
    passes_leaveScope h₆.sized (hpass₆.holds hheld₆) hsaved₆
  refine ⟨s₇, ?_, hrunning₇, hsaved₇, fun i hi hruns => ?_⟩
  · refine (hpass₆.further (h₇.widen _)).at_place ?_
    simp only [size]
    omega
  rw [h₇.point_eq hi]
  cases hv : f i with
  | true =>
    have hruns₃' : s₃.Runs i = true := by rw [hruns₃ i hi, hruns, hv]; rfl
    rw [h₆.idle i hi (by rw [hruns₅ i hi, hruns₃']; rfl), hpoint₅ i hi]
    exact h₄.result i hi hruns₃'
  | false => exact h₆.result i hi (by rw [hruns₅ i hi, hruns₃ i hi, hruns, hv]; rfl)

/-- The test of a loop: the points where the condition holds run on, and if there is none the loop
is left. -/
theorem passes_test {s : Session Grid} {ws : List Statement} {name name' name'' : String}
    {l : Label} (hs : s.IsSized n) (hc : s.IsCondition n c)
    (hheld : s.text.Holds s.machine.position (c ++ .scope name .setCurrent ::
      .scope name' .selectCurrent :: .jump name'' .jumpNoRunning l :: ws))
    (hl : l.position ≤ s.text.length) :
    ∃ (t : Session Grid) (f : Nat → Bool), s.Passes n noPoint
        (if ∀ i < n, t.Runs i = false then l.position
          else s.machine.position + codeSize c + 4) t ∧
      t.host.env.states.saved = s.host.env.states.saved ∧
      (∀ i < n, t.Runs i = (s.Runs i && f i)) ∧
      ∀ i < n, s.Runs i = true → ∀ v, (s.point i).holds? c = some v → f i = v := by
  obtain ⟨s₁, f, h₁, hstates₁, hf⟩ := passes_condition hs hc hheld
  have hheld₁ := hheld.append_right.tail
  obtain ⟨s₂, h₂, hstates₂⟩ := passes_selectCurrent h₁.sized (h₁.holds hheld₁)
  replace h₂ := h₁.further h₂
  rw [hstates₁] at hstates₂
  obtain ⟨t, ht, hstates⟩ := passes_jumpNoRunning h₂.sized (h₂.holds hheld₁.tail)
    (by rw [h₂.text_eq]; exact hl)
  have hruns (i : Nat) : t.Runs i = s₂.Runs i :=
    congrArg (fun r : RunningStates => r.running.get i) hstates
  have hnone : s₂.host.env.states.running.hasNone = true ↔ ∀ i < n, t.Runs i = false := by
    rw [Mask.hasNone_iff (by rw [hstates₂]; exact RunningStates.tidy_setCurrent _ f),
      h₂.sized.states.1]
    exact forall₂_congr fun i _ => by rw [hruns]; rfl
  refine ⟨t, f, (h₂.trans ht).at_place ?_, by rw [hstates, hstates₂]; rfl, fun i hi => ?_, hf⟩
  · simp only [hnone, h₂.position]
  · rw [hruns]
    unfold Runs
    rw [hstates₂]
    exact RunningStates.get_setCurrent _ f (by rw [RunningStates.size, hs.states.1]; exact hi)

/-- The rounds of a loop, by induction on their number: it is the largest of those that the running
points need, and a point that needs fewer waits with its result. -/
theorem passes_rounds (hbody : body.IsPerPoint n) {s : Session Grid} {ws : List Statement} {k : Nat}
    {test select skip back : String} {A : Nat → Point → Prop} (rounds : Nat)
    (hs : s.IsSized n) (hc : s.IsCondition n c) (hadmissible : body.Admissible n s)
    (hk : s.machine.position = k)
    (hheld : s.text.Holds k (c ++ .scope test .setCurrent :: .scope select .selectCurrent ::
      .jump skip .jumpNoRunning ⟨l', k + codeSize c + 4 + body.size + 2⟩ ::
      (body.statements (k + codeSize c + 4) ++ .jump back .jump ⟨l, k⟩ :: ws)))
    (hA : ∀ i < n, s.Runs i = true → EndsWithin c body (A i) rounds (s.point i)) :
    ∃ t, s.Passes n s.Runs (k + codeSize c + 4 + body.size + 2) t ∧
      t.host.env.states.saved = s.host.env.states.saved ∧
      ∀ i < n, s.Runs i = true → A i (t.point i) := by
  induction rounds using Nat.strong_induction_on generalizing s with
  | _ rounds ih =>
    have hle := hheld.le
    simp only [codeSize_append, codeSize_cons, Statement.size_scope, Statement.size_jump,
      codeSize_statements] at hle
    obtain ⟨s₁, f, h₁, hsaved₁, hruns₁, hf⟩ :=
      passes_test hs hc (hk ▸ hheld) (by dsimp only; omega)
    rw [hk] at h₁
    have hdone (i : Nat) (hi : i < n) (hi' : s.Runs i = true) (hidle : s₁.Runs i = false) :
        A i (s.point i) := by
      obtain ⟨v, hv, hA, -⟩ := (hA i hi hi').exists_holds
      rw [hruns₁ i hi, hi', Bool.true_and, hf i hi hi' v hv] at hidle
      exact hA hidle
    by_cases hnone : ∀ i < n, s₁.Runs i = false
    · -- the loop is left
      rw [if_pos hnone] at h₁
      refine ⟨s₁, h₁.widen _, hsaved₁, fun i hi hi' => ?_⟩
      rw [h₁.point_eq hi]
      exact hdone i hi hi' (hnone i hi)
    -- a round for the points that go on
    rw [if_neg hnone] at h₁
    have hlive (i : Nat) (hi : i < n) (hi' : s₁.Runs i = true) : s.Runs i = true := by
      rw [hruns₁ i hi, Bool.and_eq_true] at hi'
      exact hi'.1
    have hagain (i : Nat) (hi : i < n) (hi' : s₁.Runs i = true) : ∃ m, rounds = m + 1 ∧
        body.Ensures (EndsWithin c body (A i) m) (s.point i) := by
      have hi'' := hlive i hi hi'
      obtain ⟨v, hv, -, hagain⟩ := (hA i hi hi'').exists_holds
      rw [hruns₁ i hi, hi'', Bool.true_and, hf i hi hi'' v hv] at hi'
      exact hagain hi'
    obtain ⟨m, rfl⟩ : ∃ m, rounds = m + 1 := by
      simp only [not_forall, Bool.not_eq_false] at hnone
      obtain ⟨i, hi, hi'⟩ := hnone
      obtain ⟨m, hm, -⟩ := hagain i hi hi'
      exact ⟨m, hm⟩
    have hheld₁ := hheld.append_right.tail.tail.tail
    obtain ⟨s₂, h₂⟩ := hbody s₁ (fun i => EndsWithin c body (A i) m) h₁.sized
      (hadmissible.of_related h₁.kinds) (by rw [h₁.position]; exact h₁.text_eq ▸ hheld₁.append_left)
      fun i hi hi' => by
        obtain ⟨m', hm', hbody⟩ := hagain i hi hi'
        obtain rfl : m = m' := by omega
        rw [h₁.point_eq hi]
        exact hbody
    have hpass₂ := (h₁.widen s.Runs).further (h₂.toPasses.mono hlive)
    -- and back to the test
    have hheld₂ := hheld₁.append_right
    rw [codeSize_statements] at hheld₂
    obtain ⟨s₃, h₃, hstates₃⟩ := passes_jump h₂.sized (hpass₂.holds hheld₂)
      (by rw [hpass₂.text_eq]; dsimp only; omega)
    have hpass₃ := hpass₂.trans (h₃.widen s.Runs)
    have hruns₃ (i : Nat) : s₃.Runs i = s₁.Runs i := by
      unfold Runs
      rw [hstates₃, h₂.running]
    obtain ⟨t, ht, hsaved, hresult⟩ := ih m (by omega) hpass₃.sized (hc.of_related hpass₃.kinds)
      (hadmissible.of_related hpass₃.kinds) hpass₃.position (hpass₃.text_eq ▸ hheld)
      fun i hi hi' => by
        rw [h₃.point_eq hi]
        exact h₂.result i hi (hruns₃ i ▸ hi')
    refine ⟨t, hpass₃.trans (ht.mono fun i hi hi' => hlive i hi (hruns₃ i ▸ hi')),
      by rw [hsaved, hstates₃, h₂.saved, hsaved₁], fun i hi hi' => ?_⟩
    cases hv : s₁.Runs i with
    | true => exact hresult i hi ((hruns₃ i).trans hv)
    | false =>
      rw [ht.idle i hi ((hruns₃ i).trans hv), h₃.point_eq hi, h₂.idle i hi hv, h₁.point_eq hi]
      exact hdone i hi hi' hv

/-- Each point of a loop goes as many rounds as its own condition says. -/
theorem isPerPoint_loop (hbody : body.IsPerPoint n) : (loop l l' c body).IsPerPoint n := by
  intro s A hs hadmissible hheld hA
  obtain ⟨hc, hadmissible⟩ := hadmissible
  simp only [statements, List.append_assoc, List.cons_append, List.nil_append] at hheld
  -- as many rounds as the slowest point needs
  obtain ⟨rounds, hrounds⟩ : ∃ rounds, ∀ i < n, s.Runs i = true →
      EndsWithin c body (A i) rounds (s.point i) := by
    have hsome (i : Nat) : ∃ k, i < n → s.Runs i = true →
        EndsWithin c body (A i) k (s.point i) := by
      by_cases h : i < n ∧ s.Runs i = true
      · obtain ⟨k, hk⟩ := (hA i h.1 h.2).loop
        exact ⟨k, fun _ _ => hk⟩
      · exact ⟨0, fun hi hi' => absurd ⟨hi, hi'⟩ h⟩
    choose k hk using hsome
    refine ⟨(Finset.range n).sup k, fun i hi hi' => (hk i hi hi').mono ?_⟩
    exact Finset.le_sup (Finset.mem_range.mpr hi)
  obtain ⟨s₁, h₁, hstates₁⟩ := passes_enterScope hs hheld
  have hruns₁ (i : Nat) : s₁.Runs i = s.Runs i := by
    unfold Runs
    rw [hstates₁]
    rfl
  obtain ⟨s₂, h₂, hsaved₂, hresult⟩ := passes_rounds hbody rounds h₁.sized
    (hc.of_related h₁.kinds) (hadmissible.of_related h₁.kinds) h₁.position
    (h₁.text_eq ▸ hheld.tail) fun i hi hi' => by
      rw [h₁.point_eq hi]
      exact hrounds i hi (hruns₁ i ▸ hi')
  have hpass₂ := (h₁.widen s.Runs).trans
    (h₂.mono fun i _ hi => hruns₁ i ▸ hi)
  have hheld₂ := hheld.tail.append_right.tail.tail.tail.append_right.tail
  rw [codeSize_statements] at hheld₂
  have hsaved : s₂.host.env.states.saved =
      s.host.env.states.running :: s.host.env.states.saved := by
    rw [hsaved₂, hstates₁]
    rfl
  obtain ⟨t, ht, hrunning, hsaved'⟩ := passes_leaveScope h₂.sized (hpass₂.holds hheld₂) hsaved
  refine ⟨t, (hpass₂.further (ht.widen _)).at_place ?_, hrunning, hsaved',
    fun i hi hi' => ?_⟩
  · simp only [size]
    omega
  · rw [ht.point_eq hi]
    exact hresult i hi ((hruns₁ i).trans hi')

/-- By induction on the block. -/
theorem isPerPoint (n : Nat) (b : Block) : b.IsPerPoint n := by
  induction b with
  | code c => exact isPerPoint_code c
  | seq b b' ih ih' => exact isPerPoint_seq ih ih'
  | branch _ _ c yes no ihyes ihno => exact isPerPoint_branch ihyes ihno
  | loop _ _ c body ih => exact isPerPoint_loop ih

/-- Structured code is control flow point by point. From any place where the statements of a block
stand, with nothing on the stack, on a grid of any size, whatever points run and whatever the
variables hold: if the block, read as an ordinary program, ends at each running point, the machine
comes to its end without an error. Every running point then holds its own result and every other
point what it held, uniform variables included; the same points run as before, in the same
scopes. -/
theorem refines_points {n : Nat} {s : Session Grid} {b : Block} {result : Nat → Point}
    (hs : s.IsSized n) (hb : b.Admissible n s)
    (hheld : s.text.Holds s.machine.position (b.statements s.machine.position))
    (hresult : ∀ i < n, s.Runs i = true → b.Computes (s.point i) (result i)) :
    ∃ k done t, Exec.steps k s = .ok done t ∧ t.IsSized n ∧ t.text = s.text ∧
      t.machine.position = s.machine.position + b.size ∧
      t.host.env.states.running = s.host.env.states.running ∧
      t.host.env.states.saved = s.host.env.states.saved ∧
      ∀ i < n, t.point i = if s.Runs i = true then result i else s.point i := by
  obtain ⟨t, ht⟩ := b.isPerPoint n s (fun i p => p = result i) hs hb hheld
    fun i hi hi' => ⟨result i, hresult i hi hi', rfl⟩
  obtain ⟨k, done, hk⟩ := Exec.exists_steps ht.reaches
  refine ⟨k, done, t, hk, ht.sized, ht.text_eq, ht.position, ht.running, ht.saved, fun i hi => ?_⟩
  cases hruns : s.Runs i with
  | true => exact ht.result i hi hruns
  | false => exact ht.idle i hi hruns

/-- On a patch of two points, a loop that the first one does not enter and the second one leaves
after a round, which goes through a branch. -/
theorem refines_points_loop :
    let x : VariableRef := .declared 0
    let copy : Block := .code [.read (.graphics .s), .store x]
    let b : Block := .seq copy
      (.loop 1 2 [.read x]
        (.branch 3 4 [.read (.graphics .t)] copy (.code [.constant 0, .store x])))
    let segment : Segment := ⟨((b.statements 0).flatMap Statement.elements).toArray, []⟩
    let p : Program :=
      ⟨.surface, "1", ⟨0⟩, #[⟨"x", .float, .varying, false, false, none⟩], .empty, segment⟩
    let s : Session Grid := Exec.bind.after ⟨.fresh p .standard, .fresh 1 0, #[]⟩
    let result (i : Nat) : Point := (b.run? 3 (s.point i)).getD (s.point i)
    (∀ i < 2, s.Runs i = true → b.Computes (s.point i) (result i)) ∧
      ∃ k done t, Exec.steps k s = .ok done t ∧ t.machine.position = b.size ∧
        ∀ i < 2, t.point i = if s.Runs i = true then result i else s.point i := by
  intro x copy b segment p s result
  have hsized : s.IsSized 2 := isSized_bind p .standard 1 0 #[]
  have hlocal : ((s.scalar? x).map fun v => (v.type, v.detail)) = some (.float, .varying) := by
    decide +kernel
  have hgraphics : ∀ y ∈ [GraphicsVariable.s, .t], (s.host.env.graphics.get y).type = .float := by
    decide +kernel
  have hruns : ∀ i < 2, (b.run? 3 (s.point i)).isSome = true := by decide +kernel
  have hheld : s.text.Holds s.machine.position (b.statements s.machine.position) :=
    ⟨[], [], (List.append_nil _).symm, rfl⟩
  have hposition : s.machine.position = 0 := rfl
  clear_value s
  obtain ⟨v, hv, hkind⟩ := Option.map_eq_some_iff.mp hlocal
  obtain ⟨htype, hdetail⟩ := Prod.mk.inj hkind
  have hcopy : s.IsNeutral 2 [.read (.graphics .s), .store x] := isNeutral_copy rfl hv hdetail
  have hb : b.Admissible 2 s := ⟨hcopy, isCondition_read hv htype,
    isCondition_read rfl (hgraphics _ (by simp)), hcopy, isNeutral_set 0 hv hdetail⟩
  have hresult : ∀ i < 2, s.Runs i = true → b.Computes (s.point i) (result i) := by
    intro i hi _
    obtain ⟨q, hq⟩ := Option.isSome_iff_exists.mp (hruns i hi)
    have hresult : result i = q := by simp only [result, hq, Option.getD_some]
    exact computes_of_run? (hq.trans (congrArg some hresult.symm))
  obtain ⟨k, done, t, hk, -, -, hplace, -, -, hpoint⟩ := refines_points hsized hb hheld hresult
  exact ⟨hresult, k, done, t, hk, by rw [hplace, hposition, Nat.zero_add], hpoint⟩

end Block

end ShadingMachine
