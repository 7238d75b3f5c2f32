import Mathlib.Data.List.Infix
import Mathlib.Data.List.Nodup
import ShadingMachine.Proofs.Mask.Points

/-! The laws of scopes. Whatever is done to fresh states, every mask keeps the size of the grid and
has no bit above it, so that the tests for no point and for all points count the points. What is
done in a scope leaves the scope as it was entered, as long as it enters scopes before it leaves
them and leaves as many as it enters. -/
namespace ShadingMachine

namespace Mask

theorem tidy_full (n : Nat) : (full n).Tidy := fun _ hi => lt_of_getLsbD_trim (by simp) hi

theorem bit_eq_true_of_mem_ones {m : Mask} {i : Nat} (h : i ∈ m.ones) : m.bit i = true := by
  simp only [ones, List.mem_flatMap, List.mem_map, List.mem_zipIdx_iff_getElem?, Prod.exists] at h
  obtain ⟨w, k, hw, j, hj, rfl⟩ := h
  have hj64 : j < 64 := lt_of_mem_wordOnes hj
  have hdiv : (64 * k + j) / 64 = k := by omega
  have hmod : (64 * k + j) % 64 = j := by omega
  simpa [bit, hdiv, hmod, List.getD_eq_getElem?_getD, hw] using mem_wordOnes.mp hj

theorem Tidy.lt_of_mem_ones {m : Mask} (h : m.Tidy) {i : Nat} (hi : i ∈ m.ones) : i < m.size :=
  h i (bit_eq_true_of_mem_ones hi)

/-- The points of a word come before those of the next. -/
theorem pairwise_ones (m : Mask) : m.ones.Pairwise (· < ·) := by
  refine List.pairwise_flatMap.mpr ⟨fun p _ => ?_, ?_⟩
  · exact (pairwise_wordOnes p.1).map _ fun a b hab => by omega
  · have hplaces : m.words.zipIdx.Pairwise fun p q => p.2 < q.2 := by
      rw [← List.pairwise_map (R := (· < ·)) (f := Prod.snd), List.zipIdx_map_snd]
      exact List.pairwise_lt_range'
    refine hplaces.imp fun {p q} hpq i hi j hj => ?_
    obtain ⟨k, hk, rfl⟩ := List.mem_map.mp hi
    obtain ⟨l, -, rfl⟩ := List.mem_map.mp hj
    have := lt_of_mem_wordOnes hk
    omega

theorem nodup_ones (m : Mask) : m.ones.Nodup := m.pairwise_ones.imp Nat.ne_of_lt

/-- By induction on the words, the first of them with the number `k`. -/
theorem foldl_cpop (ws : List Word) (n k : Nat) :
    ws.foldl (fun n w => n + w.cpop.toNat) n =
      n + ((ws.zipIdx k).flatMap fun p => (wordOnes p.1).map (64 * p.2 + ·)).length := by
  induction ws generalizing n k with
  | nil => rfl
  | cons w ws ih =>
    rw [List.foldl_cons, ih, List.zipIdx_cons, List.flatMap_cons, List.length_append,
      List.length_map, length_wordOnes, Nat.add_assoc]

theorem count_eq_length_ones (m : Mask) : m.count = m.ones.length :=
  (foldl_cpop m.words 0 0).trans (Nat.zero_add _)

theorem Tidy.ones_eq {m : Mask} (h : m.Tidy) : m.ones = (List.range m.size).filter m.get := by
  have hperm : m.ones.Perm ((List.range m.size).filter m.get) := by
    refine (List.perm_ext_iff_of_nodup m.nodup_ones (List.nodup_range.filter _)).mpr fun i => ?_
    rw [List.mem_filter, List.mem_range]
    exact ⟨fun hi => ⟨h.lt_of_mem_ones hi, (mem_ones (h.lt_of_mem_ones hi)).mp hi⟩,
      fun hi => (mem_ones hi.1).mpr hi.2⟩
  exact hperm.eq_of_pairwise (fun _ _ _ _ hij hji => absurd hji (Nat.lt_asymm hij)) m.pairwise_ones
    (List.pairwise_lt_range.filter _)

/-- How many points of the grid are in the set. -/
def population (m : Mask) : Nat := (List.range m.size).countP m.get

theorem Tidy.count_eq {m : Mask} (h : m.Tidy) : m.count = m.population := by
  rw [count_eq_length_ones, h.ones_eq, population, List.countP_eq_length_filter]

theorem Tidy.hasNone_iff {m : Mask} (h : m.Tidy) : m.hasNone = true ↔ m.population = 0 := by
  rw [Mask.hasNone_iff h, population, List.countP_eq_zero]
  simp

theorem Tidy.hasAll_iff {m : Mask} (h : m.Tidy) : m.hasAll = true ↔ m.population = m.size := by
  rw [hasAll, beq_iff_eq, h.count_eq]

end Mask

namespace RunningStates

/-- What can be done to the states of the points. -/
inductive Operation where
  | push
  | pop
  | select
  | invert
  | clearCurrent
  | setCurrent (condition : Nat → Bool)

namespace Operation

def isPush : Operation → Bool
  | push => true
  | _ => false

def isPop : Operation → Bool
  | pop => true
  | _ => false

/-- Where no scope was entered, leaving one does nothing. -/
def apply (s : RunningStates) : Operation → RunningStates
  | push => s.push
  | pop => s.pop?.getD s
  | select => s.select
  | invert => s.invert
  | clearCurrent => s.clearCurrent
  | setCurrent condition => s.setCurrent condition

/-- As many scopes are left as are entered, and none before it is entered. -/
structure Balanced (w : List Operation) : Prop where
  total : w.countP isPop = w.countP isPush
  prefixes : ∀ v, v <+: w → v.countP isPop ≤ v.countP isPush

end Operation

/-- The states after one operation after the other. -/
def after (s : RunningStates) (ops : List Operation) : RunningStates := ops.foldl Operation.apply s

@[simp] theorem after_nil (s : RunningStates) : s.after [] = s := rfl
@[simp] theorem after_cons (s : RunningStates) (o : Operation) (ops : List Operation) :
    s.after (o :: ops) = (o.apply s).after ops := rfl
@[simp] theorem after_append (s : RunningStates) (ops ops' : List Operation) :
    s.after (ops ++ ops') = (s.after ops).after ops' := List.foldl_append ..

/-- Every mask is for a grid of `n` points and has no bit above it. -/
structure WellKept (n : Nat) (s : RunningStates) : Prop where
  size_running : s.running.size = n
  tidy_running : s.running.Tidy
  size_current : s.current.size = n
  tidy_current : s.current.Tidy
  saved : ∀ m ∈ s.saved, m.size = n ∧ m.Tidy

variable {n : Nat} {s : RunningStates}

theorem wellKept_reset (s : RunningStates) (n : Nat) : (s.reset n).WellKept n :=
  ⟨rfl, Mask.tidy_full n, rfl, Mask.tidy_full n, fun _ h => nomatch h⟩

theorem wellKept_fresh (n : Nat) : (fresh n).WellKept n :=
  ⟨rfl, Mask.tidy_full n, rfl, Mask.tidy_full n, fun _ h => nomatch h⟩

theorem WellKept.invert (h : s.WellKept n) : s.invert.WellKept n := by
  have hcomplement : s.running.complement.Tidy := Mask.tidy_mapWords _ _
  unfold RunningStates.invert
  split
  · exact { h with tidy_running := hcomplement.inter _ }
  · exact { h with tidy_running := hcomplement }

theorem WellKept.apply (h : s.WellKept n) (o : Operation) : (o.apply s).WellKept n := by
  cases o with
  | push =>
    exact { h with saved := List.forall_mem_cons.mpr ⟨⟨h.size_running, h.tidy_running⟩, h.saved⟩ }
  | pop =>
    obtain ⟨running, current, saved, spare⟩ := s
    cases saved with
    | nil => exact h
    | cons m ms =>
      have hm := List.forall_mem_cons.mp h.saved
      exact { h with size_running := hm.1.1, tidy_running := hm.1.2, saved := hm.2 }
  | select => exact { h with size_running := h.size_current, tidy_running := h.tidy_current }
  | invert => exact h.invert
  | clearCurrent =>
    exact { h with size_current := h.size_running, tidy_current := Mask.tidy_empty _ }
  | setCurrent condition =>
    have hsize : (s.setCurrent condition).current.size = s.running.size := by
      simp [RunningStates.setCurrent]
    exact { h with size_current := hsize.trans h.size_running, tidy_current := tidy_setCurrent s _ }

theorem WellKept.after (h : s.WellKept n) (ops : List Operation) : (s.after ops).WellKept n := by
  induction ops generalizing s with
  | nil => exact h
  | cons o ops ih => exact ih (h.apply o)

/-- States that differ in nothing but their spare sets. -/
structure SameButSpare (s t : RunningStates) : Prop where
  running : s.running = t.running
  current : s.current = t.current
  saved : s.saved = t.saved

theorem SameButSpare.apply {s t : RunningStates} (h : s.SameButSpare t) (o : Operation) :
    (o.apply s).SameButSpare (o.apply t) := by
  obtain ⟨running, current, saved, spare⟩ := s
  obtain ⟨running', current', saved', spare'⟩ := t
  obtain ⟨rfl, rfl, rfl⟩ := h
  cases o with
  | pop | invert => cases saved <;> exact ⟨rfl, rfl, rfl⟩
  | push | select | clearCurrent | setCurrent => exact ⟨rfl, rfl, rfl⟩

theorem SameButSpare.after {s t : RunningStates} (h : s.SameButSpare t) (ops : List Operation) :
    (s.after ops).SameButSpare (t.after ops) := by
  induction ops generalizing s t with
  | nil => exact h
  | cons o ops ih => exact ih (h.apply o)

/-- States that were used before and are reset go on like fresh ones: what the spare sets hold is
never seen. -/
theorem after_reset (s : RunningStates) (n : Nat) (ops : List Operation) :
    ((s.reset n).after ops).SameButSpare ((fresh n).after ops) := by
  have hreset : (s.reset n).SameButSpare (fresh n) := ⟨rfl, rfl, rfl⟩
  exact hreset.after ops

open Operation in
/-- What was saved before stays below what is saved now, by induction on the operations: they never
leave more scopes than they have entered and were saved above. -/
theorem exists_saved_after (w : List Operation) {above base : List Mask}
    (hs : s.saved = above ++ base)
    (hw : ∀ v, v <+: w → v.countP isPop ≤ above.length + v.countP isPush) :
    ∃ above', (s.after w).saved = above' ++ base ∧
      above'.length + w.countP isPop = above.length + w.countP isPush := by
  induction w generalizing s above with
  | nil => exact ⟨above, hs, rfl⟩
  | cons o w ih =>
    have hgo (next : List Mask) (hnext : (o.apply s).saved = next ++ base)
        (hlength : next.length + (if o.isPop then 1 else 0) =
          above.length + if o.isPush then 1 else 0) :
        ∃ above', ((o.apply s).after w).saved = above' ++ base ∧
          above'.length + (o :: w).countP isPop = above.length + (o :: w).countP isPush := by
      obtain ⟨above', hsaved, hcount⟩ := ih hnext fun v hv => by
        have hprefix := hw (o :: v) ((List.prefix_cons_inj o).mpr hv)
        simp only [List.countP_cons] at hprefix
        omega
      refine ⟨above', hsaved, ?_⟩
      simp only [List.countP_cons]
      omega
    cases o with
    | push => exact hgo (s.running :: above) (congrArg _ hs) rfl
    | pop =>
      cases above with
      | nil =>
        have hfirst := hw [pop] ((List.prefix_cons_inj pop).mpr w.nil_prefix)
        simp [isPop, isPush] at hfirst
      | cons m ms =>
        obtain ⟨running, current, saved, spare⟩ := s
        obtain rfl : saved = m :: (ms ++ base) := hs
        exact hgo ms rfl rfl
    | invert =>
      refine hgo above ?_ rfl
      show s.invert.saved = above ++ base
      unfold RunningStates.invert
      split <;> exact hs
    | select | clearCurrent | setCurrent condition => exact hgo above hs rfl

open Operation in
/-- In a scope, what was saved when it was entered is the innermost saved set. -/
theorem saved_after_push {w : List Operation} (hw : Balanced w) :
    (s.push.after w).saved = s.running :: s.saved := by
  have hprefixes (v : List Operation) (hv : v <+: w) :
      v.countP isPop ≤ ([] : List Mask).length + v.countP isPush := by
    simpa using hw.prefixes v hv
  have hpush : s.push.saved = [] ++ s.running :: s.saved := rfl
  obtain ⟨above, hsaved, hcount⟩ := exists_saved_after w hpush hprefixes
  have htotal := hw.total
  rw [List.length_nil] at hcount
  obtain rfl : above = [] := List.eq_nil_of_length_eq_zero (by omega)
  exact hsaved

theorem get_invert_of_saved {m : Mask} {ms : List Mask} (h : s.saved = m :: ms)
    (hm : s.running.size = m.size) (i : Nat) :
    s.invert.running.get i = (m.get i && !s.running.get i) := by
  have hinvert : s.invert.running = s.running.complement.inter m := by
    obtain ⟨running, current, saved, spare⟩ := s
    obtain rfl : saved = m :: ms := h
    rfl
  rw [hinvert, Mask.get_inter (by simpa using hm), Mask.get_complement]
  by_cases hi : i < m.size
  · simp [hm, hi, Bool.and_comm]
  · simp [hm, hi, Mask.get_of_size_le (Nat.le_of_not_lt hi)]

open Operation in
/-- Whatever is done to the states of a grid of `n` points, all masks are for that grid, and the
running and the current set have no points or all of them just if the tests say so. Then a scope
that is entered, worked in and left again leaves what runs and what is saved as it was before, and
inverting it at its end runs the points that ran when it was entered and do not run now. -/
theorem scope_laws (n : Nat) (ops : List Operation) :
    let s := (fresh n).after ops
    s.WellKept n ∧
    (∀ m ∈ [s.running, s.current],
      (m.hasNone = true ↔ (List.range n).countP m.get = 0) ∧
      (m.hasAll = true ↔ (List.range n).countP m.get = n)) ∧
    ∀ w, Balanced w →
      (s.after (.push :: w)).pop?.isSome = true ∧
      (s.after (.push :: w ++ [.pop])).running = s.running ∧
      (s.after (.push :: w ++ [.pop])).saved = s.saved ∧
      ∀ i, (s.after (.push :: w ++ [.invert])).running.get i =
        (s.running.get i && !(s.after (.push :: w)).running.get i) := by
  intro s
  have hs : s.WellKept n := (wellKept_fresh n).after ops
  have htests {m : Mask} (hsize : m.size = n) (htidy : m.Tidy) :
      (m.hasNone = true ↔ (List.range n).countP m.get = 0) ∧
        (m.hasAll = true ↔ (List.range n).countP m.get = n) := by
    subst hsize
    exact ⟨htidy.hasNone_iff, htidy.hasAll_iff⟩
  refine ⟨hs, ?_, fun w hw => ?_⟩
  · simp only [List.forall_mem_cons]
    exact ⟨htests hs.size_running hs.tidy_running, htests hs.size_current hs.tidy_current,
      fun _ h => nomatch h⟩
  · have hsaved : (s.push.after w).saved = s.running :: s.saved := saved_after_push hw
    have hkept : (s.push.after w).WellKept n := (hs.apply .push).after w
    simp only [List.cons_append, after_cons, after_append, after_nil, Operation.apply,
      pop?_of_saved hsaved,
      Option.isSome_some, Option.getD_some, true_and]
    exact get_invert_of_saved hsaved (hkept.size_running.trans hs.size_running.symm)

open Operation in
/-- A scope in a scope on a grid that takes two words. -/
theorem scope_laws_nested :
    let s := (fresh 70).after [.setCurrent (· % 2 == 0), .select]
    let w : List Operation := [.setCurrent (· < 66), .select, .push, .clearCurrent, .select, .pop]
    Balanced w ∧ (s.after (.push :: w ++ [.pop])).running = s.running ∧
      ∀ i, (s.after (.push :: w ++ [.invert])).running.get i =
        (s.running.get i && !(s.after (.push :: w)).running.get i) := by
  intro s w
  have hw : Balanced w := by
    refine ⟨by decide, fun v hv => ?_⟩
    have hall : ∀ v ∈ w.inits, v.countP isPop ≤ v.countP isPush := by decide
    exact hall v ((List.mem_inits v w).mpr hv)
  obtain ⟨-, -, hscope⟩ := scope_laws 70 [.setCurrent (· % 2 == 0), .select]
  obtain ⟨-, hrunning, -, hinvert⟩ := hscope w hw
  exact ⟨hw, hrunning, hinvert⟩

end RunningStates

end ShadingMachine
