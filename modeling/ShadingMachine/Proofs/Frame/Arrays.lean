import ShadingMachine.Proofs.Execution.Argument
import ShadingMachine.Proofs.Execution.Instruction
import ShadingMachine.Proofs.Execution.Reached
import ShadingMachine.Proofs.Frame.Points

/-! The elements of an array share its type and detail in every machine that a program comes to, so
that those of a varying array vary. -/
namespace ShadingMachine

/-- The elements of every array have its type and detail. -/
def Locals.Homogeneous (ls : Locals) : Prop :=
  ∀ (k : Nat) (a : VariableArray), ls[k]? = some (.array a) →
    ∀ v ∈ a.elements, v.type = a.type ∧ v.detail = a.detail

namespace Locals

variable {ls : Locals}

theorem homogeneous_ofDeclarations (ds : Array Declaration) :
    (ofDeclarations ds).Homogeneous := by
  intro k a ha v hv
  simp only [ofDeclarations, Array.getElem?_map, Option.map_eq_some_iff] at ha
  obtain ⟨d, -, hd⟩ := ha
  unfold Local.ofDeclaration at hd
  split at hd
  · cases hd
    obtain ⟨j, -, rfl⟩ := List.mem_map.mp (List.mem_toArray.mp hv)
    exact ⟨rfl, rfl⟩
  · cases hd

/-- A local becomes one whose elements are those of its array. -/
theorem Homogeneous.set (h : ls.Homogeneous) (k : Nat) {l : Local}
    (hl : ∀ a, l = .array a → ∀ v ∈ a.elements, v.type = a.type ∧ v.detail = a.detail) :
    Homogeneous (ls.setIfInBounds k l) := by
  intro j a ha
  by_cases hj : k = j
  · subst hj
    obtain ⟨hlt, -⟩ := Array.getElem?_eq_some_iff.mp ha
    rw [Array.getElem?_setIfInBounds_self_of_lt (by simpa using hlt)] at ha
    exact hl a (Option.some.inj ha)
  · rw [Array.getElem?_setIfInBounds_ne hj] at ha
    exact h j a ha

theorem Homogeneous.mapVariables (h : ls.Homogeneous) {f : Variable → Variable}
    (hf : ∀ v, (f v).type = v.type ∧ (f v).detail = v.detail) :
    Homogeneous (ls.map (Local.mapVariables f)) := by
  intro k a ha v hv
  rw [Array.getElem?_map, Option.map_eq_some_iff] at ha
  obtain ⟨l, hl, hla⟩ := ha
  cases l with
  | scalar w => cases hla
  | array b =>
    cases hla
    obtain ⟨w, hw, rfl⟩ := Array.mem_map.mp hv
    obtain ⟨ht, hd⟩ := h k b hl w hw
    exact ⟨(hf w).1.trans ht, (hf w).2.trans hd⟩

end Locals

/-- An array that becomes another of the same kinds. -/
theorem VariableArray.Related.elements_kind {a b : VariableArray}
    (h : a.Related Variable.SameKind b)
    (ha : ∀ v ∈ a.elements, v.type = a.type ∧ v.detail = a.detail) :
    ∀ w ∈ b.elements, w.type = b.type ∧ w.detail = b.detail := by
  intro w hw
  obtain ⟨j, hj⟩ := Array.getElem?_of_mem hw
  have hrel := h.elements j
  rw [hj] at hrel
  generalize hv : a.elements[j]? = x at hrel
  cases hrel with
  | some hvw =>
    obtain ⟨ht, hd⟩ := ha _ (Array.mem_of_getElem? hv)
    exact ⟨hvw.value.type.trans (ht.trans h.type.symm),
      hvw.value.detail.trans (hd.trans h.detail.symm)⟩

namespace Machine

/-- No move of an instruction changes the kind of a variable. -/
theorem stable_homogeneous {ε : Type} :
    Exec.Stable fun _ (s : Session ε) => s.machine.locals.Homogeneous where
  pop _ h := h
  push h := h
  release h := h
  allocate _ _ h := h
  store _ h := h
  host _ h := h
  write _ _ h := h.set _ fun _ ha => nomatch ha
  writeElement hk hv hw h := h.set _ fun b hb => by
    cases hb
    exact (VariableArray.related_set hv (Variable.sameKind_of_assign hw)).elements_kind (h _ _ hk)
  scatter hk h := h.set _ fun b hb => by
    cases hb
    exact (VariableArray.sameKind_scatter _ _ _ _).elements_kind (h _ _ hk)

/-- A parameter takes values of its own kind. -/
theorem sameKind_of_storeIn {name : String} {v w : Variable} {source : Value}
    (h : Argument.storeIn name v source = .ok w) : v.SameKind w := by
  unfold Argument.storeIn at h
  split at h
  · rename_i w' hw
    cases h
    exact Variable.sameKind_of_assign hw
  · cases h

/-- An array keeps its kind, and each of its elements its own. -/
theorem related_of_storeInArray {name : String} {a b : VariableArray} {first : Value}
    {rest : List Value} (h : Argument.storeInArray name a first rest = .ok b) :
    a.Related Variable.SameKind b := by
  unfold Argument.storeInArray at h
  simp only [Bind.bind, Except.bind] at h
  split at h
  · cases h
  · rename_i elements hmap
    cases h
    refine ⟨rfl, rfl, rfl, rfl, rfl, fun k => ?_⟩
    have hk := getElem?_of_mapM hmap k
    rw [List.getElem?_zipIdx, Array.getElem?_toList] at hk
    have helements : elements.toArray[k]? = elements[k]? := List.getElem?_toArray
    dsimp only
    rw [helements]
    generalize a.elements[k]? = x at hk ⊢
    generalize elements[k]? = y at hk ⊢
    cases x with
    | none =>
      cases hk
      exact .none
    | some v =>
      cases hk with
      | some hstore =>
        refine .some ?_
        split at hstore
        · exact sameKind_of_storeIn hstore
        · cases hstore
          exact refl_of Variable.SameKind _

theorem homogeneous_setArgument {ε : Type} [Environment ε] {m m' : Machine} {env : ε}
    {name : String} {arg : Argument} {space : Option String}
    (hm : m.setArgument env name arg space = .ok m') (h : m.locals.Homogeneous) :
    m'.locals.Homogeneous := by
  obtain ⟨k, l, rfl, hl⟩ := setArgument_cases hm
  refine h.set k fun b hb => ?_
  subst hb
  rcases hl with ⟨v, w, source, -, hlw, -⟩ | ⟨a, b', first, rest, ha, hlb, hb'⟩
  · cases hlw
  · cases hlb
    exact (related_of_storeInArray hb').elements_kind (h k a ha)

theorem closed_homogeneous : Closed (fun m => m.locals.Homogeneous) fun _ => True where
  resize n h := h.mapVariables fun v => ⟨Value.type_sizeTo .., Value.detail_sizeTo ..⟩
  argument _ hm h := homogeneous_setArgument hm h
  argumentError _ _ _ := trivial
  start _ h := h
  step host h := Exec.Stable.ends_step (P := fun _ m => m.locals.Homogeneous) stable_homogeneous
    (fun _ _ _ h => h) h host
  stackImbalance _ _ := trivial
  poolImbalance _ _ _ := trivial
  clear h := h
  alone h := h
  rejoin n h := h.mapVariables fun v => by
    unfold Variable.spreadFirst Value.spreadFirst Variable.mapValue
    dsimp only
    split <;> exact ⟨rfl, rfl⟩

theorem Reached.homogeneous {p : Program} {c : Config} {m : Machine} (hm : Reached p c m) :
    m.locals.Homogeneous :=
  hm.of_closed closed_homogeneous (Locals.homogeneous_ofDeclarations p.locals)

end Machine

end ShadingMachine
