import ShadingMachine.Proofs.Frame.Arrays
import ShadingMachine.Proofs.Lockstep.Values

/-! What the locals hold. Each is a scalar or an array as it was declared, and its values have the
declared type and detail, data of the storage of that type, and one element or one for each point of
the grid that the machine is bound to. No instruction changes the kind of a value, so the locals fit
their declarations in every machine that a program comes to. -/
namespace ShadingMachine

/-! Locals can be compared. -/

deriving instance DecidableEq for Triple, Color, Mat4

instance : (s : Storage) → DecidableEq s.Elem
  | .float => inferInstanceAs (DecidableEq Float32)
  | .string => inferInstanceAs (DecidableEq String)
  | .triple => inferInstanceAs (DecidableEq (Triple Float32))
  | .color => inferInstanceAs (DecidableEq (Color Float32))
  | .matrix => inferInstanceAs (DecidableEq (Mat4 Float32))

deriving instance DecidableEq for Data, Value, Variable, VariableArray, Local

namespace Value

variable {type : ValueType} {detail : Detail} {n n' : Nat} {v w : Value}

/-- A value of a type and detail, with the data that such a value has on a grid of `n` points. -/
structure OfKind (type : ValueType) (detail : Detail) (n : Nat) (v : Value) : Prop
    extends IsShaped n v where
  type_eq : v.type = type
  detail_eq : v.detail = detail

theorem OfKind.sameKind (h : v.OfKind type detail n) (hw : v.SameKind w) : w.OfKind type detail n where
  toIsShaped := h.toIsShaped.sameKind hw
  type_eq := hw.type.trans h.type_eq
  detail_eq := hw.detail.trans h.detail_eq

theorem ofKind_fresh (type : ValueType) (detail : Detail) : (fresh type detail).OfKind type detail 1 where
  storage := rfl
  size := by cases detail <;> rfl
  type_eq := rfl
  detail_eq := rfl

theorem OfKind.sizeTo (h : v.OfKind type detail n) (n' : Nat) :
    (v.sizeTo n').OfKind type detail n' := by
  obtain ⟨vtype, vdetail, d⟩ := v
  obtain ⟨⟨hs, hn⟩, rfl, rfl⟩ := h
  cases vdetail with
  | uniform => exact ⟨⟨hs, hn⟩, rfl, rfl⟩
  | varying => exact ⟨⟨hs, Data.size_resize ..⟩, rfl, rfl⟩

theorem OfKind.spreadFirst (h : v.OfKind type detail n) : v.spreadFirst.OfKind type detail n := by
  obtain ⟨vtype, vdetail, d⟩ := v
  obtain ⟨⟨hs, hn⟩, rfl, rfl⟩ := h
  cases vdetail with
  | uniform => exact ⟨⟨hs, hn⟩, rfl, rfl⟩
  | varying => exact ⟨⟨hs, (Data.size_resize ..).trans hn⟩, rfl, rfl⟩

end Value

/-- A local as it was declared, on a grid of `n` points. -/
inductive Local.Declared (n : Nat) (d : Declaration) : Local → Prop
  | scalar {v : Variable} : d.arrayLength = none → v.toValue.OfKind d.type d.detail n →
    Declared n d (.scalar v)
  | array {a : VariableArray} : d.arrayLength = some a.length → a.type = d.type →
    a.detail = d.detail → (∀ v ∈ a.elements, v.toValue.OfKind d.type d.detail n) →
    Declared n d (.array a)

/-- An array keeps its length and the kinds of its elements. -/
theorem VariableArray.Related.ofKind {a b : VariableArray} (h : a.Related Variable.SameKind b)
    {type : ValueType} {detail : Detail} {n : Nat}
    (ha : ∀ v ∈ a.elements, v.toValue.OfKind type detail n) :
    b.length = a.length ∧ ∀ w ∈ b.elements, w.toValue.OfKind type detail n := by
  refine ⟨?_, fun w hw => ?_⟩
  · have hsize (k : Nat) : a.elements.size ≤ k ↔ b.elements.size ≤ k := by
      have hk := h.elements k
      rw [← Array.getElem?_eq_none_iff, ← Array.getElem?_eq_none_iff]
      generalize a.elements[k]? = x at hk ⊢
      generalize b.elements[k]? = y at hk ⊢
      cases hk <;> simp
    exact Nat.le_antisymm ((hsize _).mp le_rfl) ((hsize _).mpr le_rfl)
  · obtain ⟨j, hj⟩ := Array.getElem?_of_mem hw
    have hrel := h.elements j
    rw [hj] at hrel
    generalize hv : a.elements[j]? = x at hrel
    cases hrel with
    | some hvw => exact (ha _ (Array.mem_of_getElem? hv)).sameKind hvw.value

namespace Local.Declared

variable {n n' : Nat} {d : Declaration} {l l' : Local}

theorem related (h : l.Declared n d) (hl : l.Related Variable.SameKind l') : l'.Declared n d := by
  cases h with
  | scalar hd hv =>
    cases hl with
    | scalar hvw => exact .scalar hd (hv.sameKind hvw.value)
  | array hd ht hdetail ha =>
    cases hl with
    | array hab =>
      obtain ⟨hlength, hb⟩ := hab.ofKind ha
      exact .array (hlength ▸ hd) (hab.type.trans ht) (hab.detail.trans hdetail) hb

theorem mapVariables (h : l.Declared n d) {f : Variable → Variable}
    (hf : ∀ v : Variable, v.toValue.OfKind d.type d.detail n →
      (f v).toValue.OfKind d.type d.detail n') : (l.mapVariables f).Declared n' d := by
  cases h with
  | scalar hd hv => exact .scalar hd (hf _ hv)
  | array hd ht hdetail ha =>
    refine .array (by rw [VariableArray.length_mapElements]; exact hd) ht hdetail fun w hw => ?_
    obtain ⟨v, hv, rfl⟩ := Array.mem_map.mp hw
    exact hf v (ha v hv)

end Local.Declared

theorem Local.declared_ofDeclaration (d : Declaration) : (ofDeclaration d).Declared 1 d := by
  unfold ofDeclaration
  cases hd : d.arrayLength with
  | none => exact .scalar hd (Value.ofKind_fresh _ _)
  | some k =>
    refine .array (hd.trans (congrArg some (VariableArray.length_fresh ..).symm)) rfl rfl fun v hv => ?_
    obtain ⟨j, -, rfl⟩ := List.mem_map.mp (List.mem_toArray.mp hv)
    exact Value.ofKind_fresh _ _

/-- Each local is as it was declared. -/
def Locals.Declared (n : Nat) (ds : Array Declaration) (ls : Locals) : Prop :=
  ∀ k : Nat, Option.Rel (fun l d => Local.Declared n d l) ls[k]? ds[k]?

namespace Locals

variable {n n' : Nat} {ds : Array Declaration} {ls ls' : Locals}

theorem declared_ofDeclarations (ds : Array Declaration) : (ofDeclarations ds).Declared 1 ds := by
  intro k
  unfold ofDeclarations
  rw [Array.getElem?_map]
  cases ds[k]? with
  | none => exact .none
  | some d => exact .some (Local.declared_ofDeclaration d)

theorem Declared.get (h : ls.Declared n ds) {k : Nat} {l : Local} (hk : ls[k]? = some l) :
    ∃ d, ds[k]? = some d ∧ l.Declared n d := by
  have hrel := h k
  rw [hk] at hrel
  generalize ds[k]? = x at hrel
  cases hrel with
  | some hl => exact ⟨_, rfl, hl⟩

theorem Declared.related (h : ls.Declared n ds) (hls : ls.Related Variable.SameKind ls') :
    ls'.Declared n ds := by
  intro k
  have hk := h k
  have hrel := hls k
  generalize ls[k]? = x at hk hrel
  generalize ds[k]? = y at hk ⊢
  generalize ls'[k]? = z at hrel ⊢
  cases hk with
  | none =>
    cases hrel
    exact .none
  | some hd =>
    cases hrel with
    | some hl => exact .some (hd.related hl)

theorem Declared.mapVariables (h : ls.Declared n ds) {f : Variable → Variable}
    (hf : ∀ type detail (v : Variable), v.toValue.OfKind type detail n →
      (f v).toValue.OfKind type detail n') :
    Locals.Declared n' ds (ls.map (Local.mapVariables f)) := by
  intro k
  have hk := h k
  rw [Array.getElem?_map]
  generalize ls[k]? = x at hk ⊢
  generalize ds[k]? = y at hk ⊢
  cases hk with
  | none => exact .none
  | some hd => exact .some (hd.mapVariables (hf _ _))

end Locals

namespace Machine

/-- The locals fit their declarations, on a grid of `n` points. -/
def Declared (n : Nat) (m : Machine) : Prop := m.locals.Declared n m.program.locals

/-- No move of an instruction changes the kind of a variable. -/
theorem stable_declared {ε : Type} (n : Nat) :
    Exec.Stable fun _ (s : Session ε) => s.machine.Declared n where
  pop _ h := h
  push h := h
  release h := h
  allocate _ _ h := h
  store _ h := h
  host _ h := h
  write hk hw h :=
    Locals.Declared.related h (Locals.related_set hk (.scalar (Variable.sameKind_of_assign hw)))
  writeElement hk hv hw h :=
    Locals.Declared.related h (Locals.related_set hk (.array (VariableArray.related_set hv
      (Variable.sameKind_of_assign hw))))
  scatter hk h :=
    Locals.Declared.related h (Locals.related_set hk (.array (VariableArray.sameKind_scatter ..)))

theorem Declared.step {ε : Type} [Environment ε] {n : Nat} {m : Machine} (h : m.Declared n)
    (host : Host ε) : Exec.Ends Exec.step ⟨m, host⟩ (fun _ t => t.machine.Declared n)
      fun _ t => True ∧ t.machine.Declared n :=
  (stable_declared n).ends_step (P := fun _ m => m.Declared n) (fun _ _ _ h => h) h host

theorem Declared.resizeGrid {n : Nat} {m : Machine} (h : m.Declared n) (n' : Nat) :
    (m.resizeGrid n').Declared (max n' 1) :=
  Locals.Declared.mapVariables h fun _ _ _ hv => hv.sizeTo _

theorem Declared.rejoin {n : Nat} {m : Machine} (h : m.Declared n) (n' : Nat) :
    (m.rejoin n').Declared n :=
  Locals.Declared.mapVariables h fun _ _ _ hv => hv.spreadFirst

/-- Parameters are set as they are declared. -/
theorem Declared.setArgument {ε : Type} [Environment ε] {n : Nat} {m m' : Machine} {env : ε}
    {name : String} {arg : Argument} {space : Option String}
    (hm : m.setArgument env name arg space = .ok m') (h : m.Declared n) : m'.Declared n := by
  obtain ⟨k, l, rfl, hl⟩ := setArgument_cases hm
  rcases hl with ⟨v, w, source, hk, rfl, hw⟩ | ⟨a, b, first, rest, hk, rfl, hb⟩
  · exact Locals.Declared.related h (Locals.related_set hk (.scalar (sameKind_of_storeIn hw)))
  · exact Locals.Declared.related h (Locals.related_set hk (.array (related_of_storeInArray hb)))

theorem closed_declared : Closed (fun m => ∃ n, m.Declared n) fun _ => True where
  resize n h := h.elim fun _ h => ⟨_, h.resizeGrid n⟩
  argument _ hm h := h.elim fun n h => ⟨n, h.setArgument hm⟩
  argumentError _ _ _ := trivial
  start _ h := h
  step host h := h.elim fun n h => (h.step host).imp (fun _ _ h => ⟨n, h⟩) fun _ _ h => ⟨trivial, n, h.2⟩
  stackImbalance _ _ := trivial
  poolImbalance _ _ _ := trivial
  clear h := h
  alone h := h
  rejoin n h := h.elim fun _ h => ⟨_, h.rejoin n⟩

theorem Reached.declared {p : Program} {c : Config} {m : Machine} (hm : Reached p c m) :
    ∃ n, m.Declared n :=
  hm.of_closed closed_declared ⟨1, Locals.declared_ofDeclarations p.locals⟩

end Machine

end ShadingMachine
