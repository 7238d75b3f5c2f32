import ShadingMachine.Pattern.Parse
import ShadingMachine.Proofs.Parameter.Elements
import ShadingMachine.Proofs.Storage.Locals

/-! Setting a parameter changes all of it or nothing. The elements of an array are written one after
another, and a machine that stores in place may be left with an array half written when an element is
rejected; in the machines that a program comes to none is, so that it does the same as one that keeps
nothing of a failure. -/
namespace ShadingMachine

namespace Variable

/-- The variable has the one element of a value at every point. -/
def Holds (v : Variable) (source : Value) : Prop :=
  ∀ i, v.place i < v.size → v.get v.type.storage i = source.get v.type.storage 0

variable {type : ValueType} {detail : Detail} {n n' : Nat} {v : Variable} {source : Value}

/-- A uniform value of its type is taken over at every point. -/
theorem exists_assign (hv : v.toValue.OfKind type detail n)
    (hs : source.OfKind type .uniform n') :
    ∃ w, v.assign source (.full v.size) = .ok w ∧ v.SameKind w ∧ w.Holds source := by
  have hstorage : source.data.storage = v.data.storage := by
    rw [hs.storage, hv.storage, hs.type_eq, hv.type_eq]
  have hsize : source.data.size = 1 := hs.size_uniform hs.detail_eq
  have hassign : v.assign source (.full v.size) = .ok (v.mapValue fun old =>
      { old with data := old.data.copyWhere source.data fun i =>
        !v.isVarying || (Mask.full v.size).get i }) := by
    unfold assign
    rw [if_neg (by rw [hv.type_eq, hs.type_eq]; exact not_not.mpr rfl),
      Value.isVarying_eq_false_iff.mpr hs.detail_eq, Bool.and_false, if_neg (by decide)]
  refine ⟨_, hassign, sameKind_of_assign hassign, fun i hi => ?_⟩
  change v.place i < (v.data.copyWhere source.data _).size at hi
  rw [Data.size_copyWhere] at hi
  have hactive : (!v.isVarying || (Mask.full v.size).get (v.place i)) = true := by
    rw [Mask.get_full, decide_eq_true (show v.place i < v.size from hi), Bool.or_true]
  have hget := @Data.get_copyWhere v.data source.data hstorage
    (fun i => !v.isVarying || (Mask.full v.size).get i) (v.place i) hi (.inl hsize)
  rw [if_pos hactive, Data.spread, if_pos hsize, hv.storage] at hget
  show (v.data.copyWhere source.data _).get v.type.storage (v.place i) =
    source.data.get v.type.storage (source.place 0)
  rw [hget, Value.place_uniform hs.detail_eq]

end Variable

namespace Argument

/-- Stores the values in the variables that have one, in their order. What is stored before a value
is rejected stays. -/
def storeInTurn (name : String) (source? : Nat → Option Value) :
    Nat → List Variable → Except ExecError Unit × List Variable
  | _, [] => (.ok (), [])
  | k, v :: vs =>
    match source? k with
    | none =>
      let (outcome, ws) := storeInTurn name source? (k + 1) vs
      (outcome, v :: ws)
    | some source =>
      match storeIn name v source with
      | .error e => (.error e, v :: vs)
      | .ok w =>
        let (outcome, ws) := storeInTurn name source? (k + 1) vs
        (outcome, w :: ws)

/-- The value for an element of an array: a single one is for all of them. -/
def source? (values : List Value) (k : Nat) : Option Value :=
  match values with
  | [x] => some x
  | _ => values[k]?

/-- An element of an array that is given values, before and after. -/
structure Arrives (values : List Value) (k : Nat) (v w : Variable) : Prop where
  sameKind : v.SameKind w
  single : ∀ x, values = [x] → w.Holds x
  own : ∀ x, values.length ≠ 1 → values[k]? = some x → w.Holds x
  rest : values.length ≠ 1 → values[k]? = none → w = v

variable {name : String} {type : ValueType} {detail : Detail} {n : Nat} {values : List Value}

theorem exists_storeIn {v : Variable} {source : Value} (hv : v.toValue.OfKind type detail n)
    (hs : source.OfKind type .uniform 1) (name : String) :
    ∃ w, storeIn name v source = .ok w ∧ v.SameKind w ∧ w.Holds source := by
  obtain ⟨w, hw, hkind⟩ := Variable.exists_assign hv hs
  refine ⟨w, ?_, hkind⟩
  unfold storeIn
  rw [hw]

theorem source?_of_length_ne_one (h : values.length ≠ 1) (k : Nat) :
    source? values k = values[k]? := by
  match values, h with
  | [], _ => rfl
  | [_], h => exact absurd rfl h
  | _ :: _ :: _, _ => rfl

theorem mem_of_source? {k : Nat} {x : Value} (h : source? values k = some x) : x ∈ values := by
  by_cases hone : values.length = 1
  · obtain ⟨y, rfl⟩ := List.length_eq_one_iff.mp hone
    cases h
    exact List.mem_singleton_self _
  · rw [source?_of_length_ne_one hone] at h
    exact List.mem_of_getElem? h

theorem arrives_of_some {k : Nat} {v w : Variable} {x : Value} (hkind : v.SameKind w)
    (hsource : source? values k = some x) (hw : w.Holds x) : Arrives values k v w := by
  refine ⟨hkind, fun y hy => ?_, fun y hmany hy => ?_, fun hmany hnone => ?_⟩
  · subst hy
    cases hsource
    exact hw
  · rw [source?_of_length_ne_one hmany, hy] at hsource
    cases hsource
    exact hw
  · rw [source?_of_length_ne_one hmany, hnone] at hsource
    cases hsource

theorem arrives_of_none {k : Nat} (v : Variable) (hsource : source? values k = none) :
    Arrives values k v v := by
  refine ⟨refl_of Variable.SameKind v, fun y hy => ?_, fun y hmany hy => ?_, fun _ _ => rfl⟩
  · subst hy
    cases hsource
  · rw [source?_of_length_ne_one hmany, hy] at hsource
    cases hsource

/-- The first of the variables takes its value. -/
theorem exists_storeFirst (name : String) (hvalues : ∀ x ∈ values, x.OfKind type .uniform 1)
    (k : Nat) {v : Variable} {vs ws : List Variable} (hv : v.toValue.OfKind type detail n)
    (hws : storeInTurn name (source? values) (k + 1) vs = (.ok (), ws)) :
    ∃ w, storeInTurn name (source? values) k (v :: vs) = (.ok (), w :: ws) ∧
      Arrives values k v w := by
  unfold storeInTurn
  rw [hws]
  cases hsource : source? values k with
  | none => exact ⟨v, rfl, arrives_of_none v hsource⟩
  | some x =>
    obtain ⟨w, hw, hkind, hholds⟩ := exists_storeIn hv (hvalues x (mem_of_source? hsource)) name
    exact ⟨w, by simp only [hw], arrives_of_some hkind hsource hholds⟩

/-- Values of the right type are all stored. -/
theorem exists_storeInTurn (name : String) (hvalues : ∀ x ∈ values, x.OfKind type .uniform 1)
    (k : Nat) {vs : List Variable} (hvs : ∀ v ∈ vs, v.toValue.OfKind type detail n) :
    ∃ ws, storeInTurn name (source? values) k vs = (.ok (), ws) ∧
      ∀ j, Option.Rel (Arrives values (k + j)) vs[j]? ws[j]? := by
  induction vs generalizing k with
  | nil => exact ⟨[], rfl, fun _ => .none⟩
  | cons v vs ih =>
    obtain ⟨hv, hvs⟩ := List.forall_mem_cons.mp hvs
    obtain ⟨ws, hws, hrest⟩ := ih (k + 1) hvs
    obtain ⟨w, hstored, harrives⟩ := exists_storeFirst name hvalues k hv hws
    refine ⟨w :: ws, hstored, fun j => ?_⟩
    cases j with
    | zero => exact .some harrives
    | succ j =>
      rw [List.getElem?_cons_succ, List.getElem?_cons_succ, ← Nat.add_assoc, Nat.add_right_comm]
      exact hrest j

/-- Element by element is the same as all at once, where nothing is kept of a failure. -/
theorem mapM_eq_storeInTurn (name : String) (source? : Nat → Option Value) (k : Nat)
    (vs : List Variable) :
    ((vs.zipIdx k).mapM fun p =>
      match source? p.2 with
      | some source => storeIn name p.1 source
      | none => .ok p.1) =
      (storeInTurn name source? k vs).1.map fun _ => (storeInTurn name source? k vs).2 := by
  induction vs generalizing k with
  | nil => rfl
  | cons v vs ih =>
    rw [List.zipIdx_cons, List.mapM_cons, ih, storeInTurn]
    cases source? k with
    | none =>
      cases (storeInTurn name source? (k + 1) vs).1 <;> rfl
    | some source =>
      cases hstore : storeIn name v source with
      | error e =>
        simp only [hstore]
        rfl
      | ok w =>
        simp only [hstore]
        cases (storeInTurn name source? (k + 1) vs).1 <;> rfl

end Argument

theorem Argument.storeInArray_eq (name : String) (a : VariableArray) (first : Value)
    (rest : List Value) :
    storeInArray name a first rest =
      (storeInTurn name (source? (first :: rest)) 0 a.elements.toList).1.map fun _ =>
        { a with
          elements := (storeInTurn name (source? (first :: rest)) 0 a.elements.toList).2.toArray } := by
  have hsource (k : Nat) :
      (if rest.isEmpty then some first else (first :: rest)[k]?) = source? (first :: rest) k := by
    cases rest <;> rfl
  unfold storeInArray
  simp only [hsource]
  refine (congrArg (· >>= fun vs : List Variable => pure { a with elements := vs.toArray })
    (mapM_eq_storeInTurn name (source? (first :: rest)) 0 a.elements.toList)).trans ?_
  cases (storeInTurn name (source? (first :: rest)) 0 a.elements.toList).1 <;> rfl

namespace Local

/-- Stores the first of the values in a scalar, or all of them in the elements of an array. -/
def storeInTurn (name : String) (values : List Value) : Local → Except ExecError Unit × Local
  | scalar v =>
    match values with
    | [] => (.ok (), scalar v)
    | first :: _ =>
      match Argument.storeIn name v first with
      | .ok w => (.ok (), scalar w)
      | .error e => (.error e, scalar v)
  | array a =>
    let (outcome, vs) := Argument.storeInTurn name (Argument.source? values) 0 a.elements.toList
    (outcome, array { a with elements := vs.toArray })

/-- A local that is given values, before and after. -/
inductive Takes (values : List Value) : Local → Local → Prop
  | scalar {v w : Variable} {first : Value} : values.head? = some first → v.SameKind w →
    w.Holds first → Takes values (.scalar v) (.scalar w)
  | array {a : VariableArray} {vs : Array Variable} :
    (∀ k : Nat, Option.Rel (Argument.Arrives values k) a.elements[k]? vs[k]?) →
    Takes values (.array a) (.array { a with elements := vs })

variable {n : Nat} {d : Declaration} {values : List Value} {l : Local}

theorem Declared.exists_storeInTurn (h : l.Declared n d) (name : String)
    (hvalues : ∀ x ∈ values, x.OfKind d.type .uniform 1) (hne : values ≠ []) :
    ∃ l', l.storeInTurn name values = (.ok (), l') ∧ l.Takes values l' := by
  cases h with
  | @scalar v _ hv =>
    match values, hne with
    | first :: rest, _ =>
      obtain ⟨w, hw, hkind, hholds⟩ :=
        Argument.exists_storeIn hv (hvalues first List.mem_cons_self) name
      exact ⟨.scalar w, by simp only [storeInTurn, hw], .scalar rfl hkind hholds⟩
  | @array a _ _ _ ha =>
    have helements : ∀ v ∈ a.elements.toList, v.toValue.OfKind d.type d.detail n :=
      fun v hv => ha v (Array.mem_toList_iff.mp hv)
    obtain ⟨vs, hvs, harrives⟩ := Argument.exists_storeInTurn name hvalues 0 helements
    refine ⟨.array { a with elements := vs.toArray }, by simp only [storeInTurn, hvs],
      .array fun k => ?_⟩
    have hk := harrives k
    rw [Nat.zero_add, Array.getElem?_toList] at hk
    rw [show vs.toArray[k]? = vs[k]? from List.getElem?_toArray]
    exact hk

end Local

namespace Machine

variable {ε : Type} [Environment ε]

/-- Sets a parameter in place. What is stored before a value is rejected stays. -/
def setInTurn (m : Machine) (env : ε) (name : String) (arg : Argument) (space : Option String) :
    Except ExecError Unit × Machine :=
  match m.program.localIndex? name with
  | none => (.error (.unknownArgument name), m)
  | some k =>
    match m.program.locals[k]? with
    | none => (.error (.unknownLocal k), m)
    | some declaration =>
      match arg.elements env declaration.type space with
      | .error reason => (.error (.badArgument name reason), m)
      | .ok [] => (.error (.badArgument name "no values"), m)
      | .ok (first :: rest) =>
        match m.locals[k]? with
        | none => (.error (.unknownLocal k), m)
        | some l =>
          let (outcome, l) := l.storeInTurn name (first :: rest)
          (outcome, { m with locals := m.locals.setIfInBounds k l })

/-- A parameter is set as in place, where nothing is kept of a failure. -/
theorem setArgument_eq_setInTurn (m : Machine) (env : ε) (name : String) (arg : Argument)
    (space : Option String) :
    m.setArgument env name arg space =
      (m.setInTurn env name arg space).1.map fun _ => (m.setInTurn env name arg space).2 := by
  unfold setArgument setInTurn
  cases hk : m.program.localIndex? name with
  | none => rfl
  | some k =>
    cases hd : m.program.locals[k]? with
    | none =>
      simp only [hd]
      rfl
    | some d =>
      simp only [hd]
      cases arg.elements env d.type space with
      | error reason => rfl
      | ok values =>
        cases values with
        | nil => rfl
        | cons first rest =>
          cases m.locals[k]? with
          | none => rfl
          | some l =>
            cases l with
            | scalar v =>
              simp only [Local.storeInTurn]
              cases Argument.storeIn name v first <;> rfl
            | array a =>
              simp only [Local.storeInTurn, Argument.storeInArray_eq]
              cases (Argument.storeInTurn name (Argument.source? (first :: rest)) 0
                a.elements.toList).1 <;> rfl

/-- What setting a parameter does to a machine. -/
structure SetsWhole (m : Machine) (env : ε) (name : String) (arg : Argument)
    (space : Option String) : Prop where
  /-- In place a failure leaves the machine as it was, too. -/
  inTurn : m.setInTurn env name arg space =
    match m.setArgument env name arg space with
    | .ok m' => (.ok (), m')
    | .error e => (.error e, m)
  /-- No value that the argument is converted to is rejected. -/
  accepted : ∀ k d values, m.program.localIndex? name = some k → m.program.locals[k]? = some d →
    arg.elements env d.type space = .ok values → values ≠ [] →
    ∃ m', m.setArgument env name arg space = .ok m'
  /-- The local of that name takes the values, and nothing else changes. -/
  changed : ∀ m', m.setArgument env name arg space = .ok m' →
    ∃ k d values l l', m.program.localIndex? name = some k ∧ m.program.locals[k]? = some d ∧
      arg.elements env d.type space = .ok values ∧ arg.Converts d.type space values ∧
      m.locals[k]? = some l ∧ l.Takes values l' ∧
      m' = { m with locals := m.locals.setIfInBounds k l' }

variable {m : Machine} {env : ε} {name : String} {arg : Argument} {space : Option String}

/-- A parameter that has values to take. -/
theorem setInTurn_of_elements {k : Nat} {d : Declaration} {values : List Value} {l : Local}
    (hk : m.program.localIndex? name = some k) (hd : m.program.locals[k]? = some d)
    (hvalues : arg.elements env d.type space = .ok values) (hne : values ≠ [])
    (hl : m.locals[k]? = some l) :
    m.setInTurn env name arg space = ((l.storeInTurn name values).1,
      { m with locals := m.locals.setIfInBounds k (l.storeInTurn name values).2 }) := by
  cases values with
  | nil => exact absurd rfl hne
  | cons first rest =>
    unfold setInTurn
    simp only [hk, hd, hvalues, hl]

/-- A parameter is left alone, or it has values to take. -/
theorem setInTurn_cases (m : Machine) (env : ε) (name : String) (arg : Argument)
    (space : Option String) :
    (∃ e, m.setInTurn env name arg space = (.error e, m)) ∨
      ∃ k d values l, m.program.localIndex? name = some k ∧ m.program.locals[k]? = some d ∧
        arg.elements env d.type space = .ok values ∧ values ≠ [] ∧ m.locals[k]? = some l := by
  unfold setInTurn
  cases hk : m.program.localIndex? name with
  | none => exact .inl ⟨_, rfl⟩
  | some k =>
    cases hd : m.program.locals[k]? with
    | none => exact .inl ⟨.unknownLocal k, by simp only [hd]⟩
    | some d =>
      simp only [hd]
      cases hvalues : arg.elements env d.type space with
      | error reason => exact .inl ⟨_, rfl⟩
      | ok values =>
        cases values with
        | nil => exact .inl ⟨_, rfl⟩
        | cons first rest =>
          cases hl : m.locals[k]? with
          | none => exact .inl ⟨_, rfl⟩
          | some l => exact .inr ⟨k, d, _, l, rfl, hd, hvalues, List.cons_ne_nil _ _, hl⟩

/-- Values of the type of the local are stored, all of them. -/
theorem Declared.setArgument_of_elements {n k : Nat} {d : Declaration} {values : List Value}
    {l : Local} (hm : m.Declared n) (hk : m.program.localIndex? name = some k)
    (hd : m.program.locals[k]? = some d) (hvalues : arg.elements env d.type space = .ok values)
    (hne : values ≠ []) (hl : m.locals[k]? = some l) :
    ∃ l', l.Takes values l' ∧
      m.setInTurn env name arg space =
        (.ok (), { m with locals := m.locals.setIfInBounds k l' }) ∧
      m.setArgument env name arg space =
        .ok { m with locals := m.locals.setIfInBounds k l' } := by
  obtain ⟨d', hd', hdeclared⟩ := Locals.Declared.get hm hl
  obtain rfl := Option.some.inj (hd.symm.trans hd')
  obtain ⟨l', hstored, htakes⟩ := hdeclared.exists_storeInTurn name
    (Argument.converts_of_elements hvalues).ofKind hne
  have hturn := setInTurn_of_elements hk hd hvalues hne hl
  rw [hstored] at hturn
  refine ⟨l', htakes, hturn, ?_⟩
  rw [setArgument_eq_setInTurn, hturn]
  rfl

/-- A machine that a program comes to sets a parameter as a whole or not at all, and takes every
value of the type of the parameter. -/
theorem Reached.setsWhole {p : Program} {c : Config} (hm : Reached p c m) (env : ε) (name : String)
    (arg : Argument) (space : Option String) : m.SetsWhole env name arg space := by
  obtain ⟨n, hdeclared⟩ := hm.declared
  have hlocal {k : Nat} {d : Declaration} (hd : m.program.locals[k]? = some d) :
      ∃ l, m.locals[k]? = some l := by
    have hk := hdeclared k
    rw [hd] at hk
    generalize m.locals[k]? = x at hk
    cases hk with
    | some => exact ⟨_, rfl⟩
  rcases setInTurn_cases m env name arg space with
    ⟨e, herror⟩ | ⟨k, d, values, l, hk, hd, hvalues, hne, hl⟩
  · have hset : m.setArgument env name arg space = .error e := by
      rw [setArgument_eq_setInTurn, herror]
      rfl
    refine ⟨by rw [hset, herror], fun k d values hk hd hvalues hne => ?_, fun m' hm' => ?_⟩
    · obtain ⟨l, hl⟩ := hlocal hd
      obtain ⟨l', -, -, h⟩ := hdeclared.setArgument_of_elements hk hd hvalues hne hl
      exact ⟨_, h⟩
    · rw [hset] at hm'
      cases hm'
  · obtain ⟨l', htakes, hturn, hset⟩ := hdeclared.setArgument_of_elements hk hd hvalues hne hl
    refine ⟨by rw [hset, hturn], fun _ _ _ _ _ _ _ => ⟨_, hset⟩, fun m' hm' => ?_⟩
    rw [hset] at hm'
    cases hm'
    exact ⟨k, d, values, l, l', hk, hd, hvalues, Argument.converts_of_elements hvalues, hl, htakes,
      rfl⟩

/-- Seven numbers for an array of three varying colors, on a grid of two points: its last element
has none of its own, and the last number is of no element. -/
theorem Reached.setsWhole_short :
    let p : Program :=
      ⟨.surface, "1", ⟨0⟩, #[⟨"tint", .color, .varying, true, false, some 3⟩], .empty, .empty⟩
    let grid : Grid := .fresh 1 0
    let m := (Call.initialise.run.after ⟨.fresh p .standard, ⟨grid, #[]⟩⟩).machine
    let arg : Argument := .floats [1, 2, 3, 4, 5, 6, 7]
    Reached p .standard m ∧ (m.setArgument grid "tint" arg none).isOk ∧ arg.count .color = 2 ∧
      m.SetsWhole grid "tint" arg none := by
  intro p grid m arg
  have hm : Reached p .standard m := .call ⟨grid, #[]⟩ .initialise .fresh
  have hok : (m.setArgument grid "tint" arg none).isOk = true := by decide +kernel
  clear_value m
  exact ⟨hm, hok, by decide, hm.setsWhole grid "tint" arg none⟩

end Machine

end ShadingMachine
