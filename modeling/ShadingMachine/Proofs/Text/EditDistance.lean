import Mathlib.Data.Nat.Basic
import Mathlib.Order.Basic
import Mathlib.Order.Bounds.Basic
import Mathlib.Order.MinMax
import ShadingMachine.Text.Closest

/-! The edit distance of two words is the least number of edits that make the second of the first.
Edits may follow each other in any order and anywhere in the word; that none of them can save more
than one is shown on a recursion over both words, and the rows of the table hold the values of that
recursion for the words read from their ends. For a misspelt name the first of the nearest candidates
is suggested. -/
namespace ShadingMachine.Text

/-- A character is inserted, deleted or replaced. -/
inductive Edit : List Char → List Char → Prop
  | insert (as bs : List Char) (c : Char) : Edit (as ++ bs) (as ++ c :: bs)
  | delete (as bs : List Char) (c : Char) : Edit (as ++ c :: bs) (as ++ bs)
  | replace (as bs : List Char) (c d : Char) : Edit (as ++ c :: bs) (as ++ d :: bs)

/-- As many edits, one after the other. -/
inductive Edits : Nat → List Char → List Char → Prop
  | nil (as : List Char) : Edits 0 as as
  | cons {n : Nat} {as bs cs : List Char} : Edit as bs → Edits n bs cs → Edits (n + 1) as cs

section Edits

variable {m n : Nat} {as bs cs : List Char}

theorem Edit.symm (h : Edit as bs) : Edit bs as := by
  cases h with
  | insert as bs c => exact .delete as bs c
  | delete as bs c => exact .insert as bs c
  | replace as bs c d => exact .replace as bs d c

theorem Edit.cons (c : Char) (h : Edit as bs) : Edit (c :: as) (c :: bs) := by
  cases h with
  | insert as bs d => exact .insert (c :: as) bs d
  | delete as bs d => exact .delete (c :: as) bs d
  | replace as bs d e => exact .replace (c :: as) bs d e

theorem Edit.reverse (h : Edit as bs) : Edit as.reverse bs.reverse := by
  cases h with
  | insert as bs c => simpa using Edit.insert bs.reverse as.reverse c
  | delete as bs c => simpa using Edit.delete bs.reverse as.reverse c
  | replace as bs c d => simpa using Edit.replace bs.reverse as.reverse c d

theorem Edit.length_le (h : Edit as bs) : as.length ≤ bs.length + 1 := by
  cases h <;> simp only [List.length_append, List.length_cons] <;> omega

theorem Edit.edits (h : Edit as bs) : Edits 1 as bs := .cons h (.nil bs)

theorem Edits.trans (h : Edits m as bs) (h' : Edits n bs cs) : Edits (m + n) as cs := by
  induction h with
  | nil as => simpa using h'
  | @cons m as bs _ hfirst _ ih =>
    have hall := Edits.cons hfirst (ih h')
    rwa [Nat.add_right_comm] at hall

theorem Edits.map {f : List Char → List Char} (hf : ∀ as bs, Edit as bs → Edit (f as) (f bs))
    (h : Edits n as bs) : Edits n (f as) (f bs) := by
  induction h with
  | nil as => exact .nil (f as)
  | cons hfirst _ ih => exact .cons (hf _ _ hfirst) ih

theorem Edits.symm (h : Edits n as bs) : Edits n bs as := by
  induction h with
  | nil as => exact .nil as
  | cons hfirst _ ih => exact ih.trans hfirst.symm.edits

theorem edits_comm : Edits n as bs ↔ Edits n bs as := ⟨.symm, .symm⟩

theorem Edits.reverse (h : Edits n as bs) : Edits n as.reverse bs.reverse :=
  h.map fun _ _ => Edit.reverse

theorem edits_reverse : Edits n as.reverse bs.reverse ↔ Edits n as bs := by
  refine ⟨fun h => ?_, .reverse⟩
  simpa using h.reverse

theorem edits_zero : Edits 0 as bs ↔ as = bs := by
  constructor
  · intro h
    cases h
    rfl
  · rintro rfl
    exact .nil as

/-- No edit changes the length by more than one. -/
theorem Edits.length_le (h : Edits n as bs) : as.length ≤ bs.length + n := by
  induction h with
  | nil => simp
  | cons hfirst _ ih =>
    have := hfirst.length_le
    omega

end Edits

/-- What the first characters of two words cost: one of them is deleted or inserted, or they are made
the same. -/
def leastCost : List Char → List Char → Nat
  | [], ds => ds.length
  | c :: cs, [] => (c :: cs).length
  | c :: cs, d :: ds =>
    min (min (leastCost cs (d :: ds) + 1) (leastCost (c :: cs) ds + 1))
      (leastCost cs ds + if c = d then 0 else 1)
termination_by cs ds => cs.length + ds.length

section Cost

variable {as bs cs ds : List Char} {c d : Char} {k : Nat}

@[simp] theorem leastCost_nil_left (ds : List Char) : leastCost [] ds = ds.length := by
  rw [leastCost]

@[simp] theorem leastCost_nil_right (cs : List Char) : leastCost cs [] = cs.length := by
  cases cs <;> simp [leastCost]

theorem leastCost_cons_cons (c d : Char) (cs ds : List Char) : leastCost (c :: cs) (d :: ds) =
    min (min (leastCost cs (d :: ds) + 1) (leastCost (c :: cs) ds + 1))
      (leastCost cs ds + if c = d then 0 else 1) := by
  rw [leastCost]

@[simp] theorem leastCost_self (cs : List Char) : leastCost cs cs = 0 := by
  induction cs with
  | nil => simp
  | cons c cs ih => simp [leastCost_cons_cons, ih]

theorem leastCost_cons_left_le (c : Char) (cs ds : List Char) :
    leastCost (c :: cs) ds ≤ leastCost cs ds + 1 := by
  cases ds with
  | nil => simp
  | cons d ds =>
    rw [leastCost_cons_cons]
    omega

theorem leastCost_cons_right_le (d : Char) (cs ds : List Char) :
    leastCost cs (d :: ds) ≤ leastCost cs ds + 1 := by
  cases cs with
  | nil => simp
  | cons c cs =>
    rw [leastCost_cons_cons]
    omega

theorem leastCost_le_cons_left (c : Char) (cs ds : List Char) :
    leastCost cs ds ≤ leastCost (c :: cs) ds + 1 := by
  induction ds with
  | nil =>
    simp only [leastCost_nil_right, List.length_cons]
    omega
  | cons d ds ih =>
    have hlonger := leastCost_cons_right_le d cs ds
    rw [leastCost_cons_cons]
    omega

theorem leastCost_replace_le (c d : Char) (cs ds : List Char) :
    leastCost (c :: cs) ds ≤ leastCost (d :: cs) ds + 1 := by
  induction ds with
  | nil => simp
  | cons e ds ih =>
    rw [leastCost_cons_cons, leastCost_cons_cons]
    split <;> split <;> omega

/-- What is saved behind some characters is no more when they stand before it. -/
theorem leastCost_append_le (h : ∀ ds, leastCost as ds ≤ leastCost bs ds + k) (cs ds : List Char) :
    leastCost (cs ++ as) ds ≤ leastCost (cs ++ bs) ds + k := by
  induction cs generalizing ds with
  | nil => exact h ds
  | cons c cs ih =>
    induction ds with
    | nil =>
      have hlengths := ih []
      simp only [leastCost_nil_right, List.cons_append, List.length_cons] at hlengths ⊢
      omega
    | cons d ds ihd =>
      have habove := ih (d :: ds)
      have hdiagonal := ih ds
      rw [List.cons_append, List.cons_append] at ihd ⊢
      rw [leastCost_cons_cons, leastCost_cons_cons]
      omega

theorem Edit.leastCost_le (h : Edit as bs) (ds : List Char) :
    leastCost as ds ≤ leastCost bs ds + 1 := by
  cases h with
  | insert cs bs c => exact leastCost_append_le (leastCost_le_cons_left c bs) cs ds
  | delete cs bs c => exact leastCost_append_le (leastCost_cons_left_le c bs) cs ds
  | replace cs bs c d => exact leastCost_append_le (leastCost_replace_le c d bs) cs ds

/-- By induction on the edits. -/
theorem Edits.leastCost_le {n : Nat} (h : Edits n as bs) : leastCost as bs ≤ n := by
  induction h with
  | nil as => simp
  | @cons _ as bs cs hfirst _ ih =>
    have hone := hfirst.leastCost_le cs
    omega

theorem edits_nil_left (ds : List Char) : Edits ds.length [] ds := by
  induction ds with
  | nil => exact .nil []
  | cons d ds ih => exact .trans ih (Edit.insert [] ds d).edits

/-- The edits follow the choice that costs least at each place. -/
theorem edits_leastCost (as bs : List Char) : Edits (leastCost as bs) as bs := by
  fun_induction leastCost as bs with
  | case1 ds => exact edits_nil_left ds
  | case2 c cs => exact (edits_nil_left (c :: cs)).symm
  | case3 c cs d ds hdelete hinsert hboth =>
    have hdeleted : Edits (leastCost cs (d :: ds) + 1) (c :: cs) (d :: ds) :=
      .cons (.delete [] cs c) hdelete
    have hinserted : Edits (leastCost (c :: cs) ds + 1) (c :: cs) (d :: ds) :=
      hinsert.trans (Edit.insert [] ds d).edits
    have hkept : Edits (leastCost cs ds + if c = d then 0 else 1) (c :: cs) (d :: ds) := by
      have hrest := hboth.map fun _ _ => Edit.cons c
      split
      · rename_i hcd
        exact hcd ▸ hrest
      · exact hrest.trans (Edit.replace [] ds c d).edits
    have hcheaper := min_rec' (Edits · (c :: cs) (d :: ds)) hdeleted hinserted
    exact min_rec' (Edits · (c :: cs) (d :: ds)) hcheaper hkept

theorem isLeast_leastCost (as bs : List Char) : IsLeast {n | Edits n as bs} (leastCost as bs) :=
  ⟨edits_leastCost as bs, fun _ h => h.leastCost_le⟩

theorem leastCost_le_max (as bs : List Char) : leastCost as bs ≤ max as.length bs.length := by
  fun_induction leastCost as bs with
  | case1 ds => simp
  | case2 c cs => simp
  | case3 c cs d ds _ _ hboth =>
    simp only [List.length_cons]
    split <;> omega

end Cost

section Table

variable {c : Char} {as bs : List Char}

/-- The costs of a word against another one that goes on with more and more of some characters. -/
def costsFrom (as bs : List Char) : List Char → List Nat
  | [] => []
  | d :: ds => leastCost as (d :: bs) :: costsFrom as (d :: bs) ds

theorem extendRow_costsFrom (c : Char) (as bs ds : List Char) :
    extendRow c (leastCost (c :: as) bs) (leastCost as bs) ds (costsFrom as bs ds) =
      costsFrom (c :: as) bs ds := by
  induction ds generalizing bs with
  | nil => rfl
  | cons d ds ih =>
    simp only [costsFrom, extendRow, ← leastCost_cons_cons, ih]

/-- A row of the table: both words are read from their ends. -/
def costs (as ds : List Char) : List Nat := leastCost as [] :: costsFrom as [] ds

theorem nextRow_costs (ds as : List Char) (c : Char) :
    nextRow ds (costs as ds) c = costs (c :: as) ds := by
  have hfirst : leastCost as [] + 1 = leastCost (c :: as) [] := by simp
  simp only [nextRow, costs, hfirst, extendRow_costsFrom]

theorem foldl_nextRow_costs (cs as ds : List Char) :
    cs.foldl (nextRow ds) (costs as ds) = costs (cs.reverse ++ as) ds := by
  induction cs generalizing as with
  | nil => rfl
  | cons c cs ih => simp [nextRow_costs, ih]

theorem costsFrom_nil (bs ds : List Char) :
    costsFrom [] bs ds = List.range' (bs.length + 1) ds.length := by
  induction ds generalizing bs with
  | nil => rfl
  | cons d ds ih => simp [costsFrom, ih, List.range'_succ]

theorem range_eq_costs (ds : List Char) : List.range (ds.length + 1) = costs [] ds := by
  rw [List.range_eq_range', List.range'_succ, costs, costsFrom_nil]
  simp

theorem getLastD_costsFrom (as bs ds : List Char) (k : Nat) :
    (leastCost as bs :: costsFrom as bs ds).getLastD k = leastCost as (ds.reverse ++ bs) := by
  induction ds generalizing bs k with
  | nil => rfl
  | cons d ds ih => simpa [costsFrom] using ih (d :: bs) k

theorem editDistance_eq_leastCost (cs ds : List Char) :
    editDistance cs ds = leastCost cs.reverse ds.reverse := by
  unfold editDistance
  rw [range_eq_costs, foldl_nextRow_costs, costs, getLastD_costsFrom]
  simp

end Table

theorem isLeast_editDistance (as bs : List Char) :
    IsLeast {n | Edits n as bs} (editDistance as bs) := by
  have h := isLeast_leastCost as.reverse bs.reverse
  simpa only [edits_reverse, ← editDistance_eq_leastCost] using h

/-- No shorter row of edits makes the one word of the other. So the distance is zero just between a
word and itself, is the same both ways, is never longer by way of a third word, and lies between the
difference of the lengths and the greater of them. -/
theorem editDistance_laws (as bs : List Char) :
    IsLeast {n | Edits n as bs} (editDistance as bs) ∧
    (editDistance as bs = 0 ↔ as = bs) ∧
    editDistance as bs = editDistance bs as ∧
    (∀ cs, editDistance as cs ≤ editDistance as bs + editDistance bs cs) ∧
    as.length - bs.length ≤ editDistance as bs ∧ bs.length - as.length ≤ editDistance as bs ∧
    editDistance as bs ≤ max as.length bs.length := by
  have hleast := isLeast_editDistance as bs
  have hedits : Edits (editDistance as bs) as bs := hleast.1
  have hzero : editDistance as bs = 0 ↔ as = bs := by
    constructor
    · intro h
      rw [h] at hedits
      exact edits_zero.mp hedits
    · intro h
      exact Nat.le_zero.mp (hleast.2 (edits_zero.mpr h))
  have hcomm : editDistance as bs = editDistance bs as := by
    apply hleast.unique
    simpa only [edits_comm] using isLeast_editDistance bs as
  have hlength := hedits.length_le
  have hlength' := hedits.symm.length_le
  refine ⟨hleast, hzero, hcomm, fun cs => ?_, by omega, by omega, ?_⟩
  · apply (isLeast_editDistance as cs).2
    exact hedits.trans (isLeast_editDistance bs cs).1
  · have h := leastCost_le_max as.reverse bs.reverse
    simpa [editDistance_eq_leastCost] using h

/-! Suggestions. While no candidate is near enough, one at the limit is; from then on a candidate must
be nearer than the one that was taken, so that of equally near ones the first is kept. -/

/-- How far a candidate is from a name. -/
def distance (name candidate : String) : Nat := editDistance name.toList candidate.toList

/-- How far it may be. -/
def reach (name : String) : Nat := max (name.toList.length / 2) 1

/-- No candidate is nearer to the name, and none as near stands before it. -/
def IsFirstNearest (name : String) (candidates : List String) (candidate : String) : Prop :=
  ∃ before after, candidates = before ++ candidate :: after ∧
    (∀ c ∈ before, distance name candidate < distance name c) ∧
    ∀ c ∈ after, distance name candidate ≤ distance name c

/-- What is kept of the candidates so far: the first nearest one with its distance, or how far one
may be as long as none is near enough. -/
inductive Kept (name : String) (candidates : List String) : Option String × Nat → Prop
  | nothing : (∀ c ∈ candidates, reach name < distance name c) →
    Kept name candidates (none, reach name)
  | taken {candidate : String} : distance name candidate ≤ reach name →
    IsFirstNearest name candidates candidate →
    Kept name candidates (some candidate, distance name candidate)

variable {name c candidate : String} {candidates : List String} {best : Option String × Nat}

theorem IsFirstNearest.mem (h : IsFirstNearest name candidates candidate) :
    candidate ∈ candidates := by
  obtain ⟨before, after, rfl, -, -⟩ := h
  exact List.mem_append_right _ List.mem_cons_self

theorem IsFirstNearest.le (h : IsFirstNearest name candidates candidate) :
    ∀ c ∈ candidates, distance name candidate ≤ distance name c := by
  obtain ⟨before, after, rfl, hbefore, hafter⟩ := h
  intro c hc
  rcases List.mem_append.mp hc with hc | hc
  · exact (hbefore c hc).le
  · rcases List.mem_cons.mp hc with rfl | hc
    · exact le_rfl
    · exact hafter c hc

theorem IsFirstNearest.unique (h : IsFirstNearest name candidates candidate)
    (h' : IsFirstNearest name candidates c) : candidate = c := by
  have heq : distance name candidate = distance name c := (h.le c h'.mem).antisymm (h'.le _ h.mem)
  obtain ⟨before, after, rfl, hbefore, -⟩ := h
  obtain ⟨before', after', hsplit, hbefore', -⟩ := h'
  -- Neither of the two stands before the other, where only farther ones are.
  rcases List.append_eq_append_iff.mp hsplit with ⟨mid, rfl, hrest⟩ | ⟨mid, rfl, hrest⟩
  · cases mid with
    | nil => exact List.head_eq_of_cons_eq hrest
    | cons d mid =>
      have hd : candidate ∈ before ++ d :: mid := by
        rw [List.head_eq_of_cons_eq hrest]
        exact List.mem_append_right _ List.mem_cons_self
      exact absurd heq (hbefore' candidate hd).ne'
  · cases mid with
    | nil => exact (List.head_eq_of_cons_eq hrest).symm
    | cons d mid =>
      have hd : c ∈ before' ++ d :: mid := by
        rw [List.head_eq_of_cons_eq hrest]
        exact List.mem_append_right _ List.mem_cons_self
      exact absurd heq (hbefore c hd).ne

/-- A nearer candidate takes the place of all before it. -/
theorem isFirstNearest_append (h : ∀ d ∈ candidates, distance name c < distance name d) :
    IsFirstNearest name (candidates ++ [c]) c :=
  ⟨candidates, [], rfl, h, fun _ hd => nomatch hd⟩

theorem IsFirstNearest.append (h : IsFirstNearest name candidates candidate)
    (hc : distance name candidate ≤ distance name c) :
    IsFirstNearest name (candidates ++ [c]) candidate := by
  obtain ⟨before, after, rfl, hbefore, hafter⟩ := h
  refine ⟨before, after ++ [c], by simp, hbefore, fun d hd => ?_⟩
  rcases List.mem_append.mp hd with hd | hd
  · exact hafter d hd
  · exact List.mem_singleton.mp hd ▸ hc

/-- One more candidate. -/
theorem Kept.next (h : Kept name candidates best) (c : String) :
    Kept name (candidates ++ [c]) (closer name.toList best c) := by
  have hdistance : editDistance name.toList c.toList = distance name c := rfl
  cases h with
  | nothing hall =>
    by_cases hc : distance name c ≤ reach name
    · have htaken : closer name.toList (none, reach name) c = (some c, distance name c) := by
        simp [closer, hdistance]
        omega
      rw [htaken]
      exact .taken hc (isFirstNearest_append fun d hd => hc.trans_lt (hall d hd))
    · have hleft : closer name.toList (none, reach name) c = (none, reach name) := by
        simp [closer, hdistance]
        omega
      rw [hleft]
      refine .nothing fun d hd => ?_
      rcases List.mem_append.mp hd with hd | hd
      · exact hall d hd
      · exact List.mem_singleton.mp hd ▸ not_le.mp hc
  | @taken candidate hreach hfirst =>
    by_cases hc : distance name c < distance name candidate
    · have htaken : closer name.toList (some candidate, distance name candidate) c =
          (some c, distance name c) := by
        simp [closer, hdistance, hc]
      rw [htaken]
      exact .taken (hc.le.trans hreach)
        (isFirstNearest_append fun d hd => hc.trans_le (hfirst.le d hd))
    · have hleft : closer name.toList (some candidate, distance name candidate) c =
          (some candidate, distance name candidate) := by
        simp [closer, hdistance, hc]
      rw [hleft]
      exact .taken hreach (hfirst.append (not_lt.mp hc))

/-- By induction on the candidates that are still to be looked at. -/
theorem Kept.foldl (h : Kept name candidates best) (later : List String) :
    Kept name (candidates ++ later) (later.foldl (closer name.toList) best) := by
  induction later generalizing candidates best with
  | nil => rwa [List.append_nil]
  | cons c later ih =>
    have hlater := ih (h.next c)
    rwa [List.append_assoc] at hlater

/-- There is no suggestion exactly if every candidate is out of reach of the name, and otherwise it
is the first of the candidates that are nearest to the name. -/
theorem closest_isFirstNearest (name : String) (candidates : List String) :
    (closest name candidates = none ↔ ∀ c ∈ candidates, reach name < distance name c) ∧
    ∀ candidate, closest name candidates = some candidate ↔
      distance name candidate ≤ reach name ∧ IsFirstNearest name candidates candidate := by
  have hstart : Kept name [] (none, reach name) := .nothing fun _ hc => nomatch hc
  have hkept := hstart.foldl candidates
  rw [List.nil_append] at hkept
  have hclosest : closest name candidates =
    (candidates.foldl (closer name.toList) (none, reach name)).1 := rfl
  generalize candidates.foldl (closer name.toList) (none, reach name) = best at hkept hclosest
  rw [hclosest]
  cases hkept with
  | nothing hall =>
    refine ⟨iff_of_true rfl hall, fun candidate => iff_of_false (by simp) ?_⟩
    rintro ⟨hreach, hfirst⟩
    exact absurd hreach (not_le.mpr (hall candidate hfirst.mem))
  | @taken found hreach hfirst =>
    refine ⟨iff_of_false (by simp) fun hall => ?_, fun candidate => ?_⟩
    · exact absurd hreach (not_le.mpr (hall found hfirst.mem))
    · constructor
      · intro h
        obtain rfl : found = candidate := Option.some.inj h
        exact ⟨hreach, hfirst⟩
      · rintro ⟨-, h⟩
        rw [hfirst.unique h]

/-- Of two candidates at the limit the first is suggested, and a nearer one behind them instead. -/
example : closest "bogus" ["bugs", "vogue", "bogies"] = some "bugs" ∧
    closest "bogus" ["bugs", "vogue", "boguz"] = some "boguz" := by decide +kernel

end ShadingMachine.Text
