import ShadingMachine.Machine.Argument

/-! What setting a parameter does to a machine: one local gets new values, and nothing else
changes. -/
namespace ShadingMachine

theorem exists_error_of_mapM {α β δ : Type} {f : α → Except δ β} {xs : List α} {e : δ}
    (h : xs.mapM f = .error e) : ∃ x ∈ xs, f x = .error e := by
  induction xs with
  | nil => cases h
  | cons x xs ih =>
    rw [List.mapM_cons] at h
    cases hx : f x with
    | error e' =>
      rw [hx] at h
      cases h
      exact ⟨x, List.mem_cons_self, hx⟩
    | ok y =>
      cases hxs : xs.mapM f with
      | error e' =>
        rw [hx, hxs] at h
        cases h
        obtain ⟨z, hz, he⟩ := ih hxs
        exact ⟨z, List.mem_cons_of_mem x hz, he⟩
      | ok zs =>
        rw [hx, hxs] at h
        cases h

/-- What a list is mapped to, place by place. -/
theorem getElem?_of_mapM {α β δ : Type} {f : α → Except δ β} {xs : List α} {ys : List β}
    (h : xs.mapM f = .ok ys) (k : Nat) : Option.Rel (fun x y => f x = .ok y) xs[k]? ys[k]? := by
  induction xs generalizing ys k with
  | nil =>
    cases h
    exact .none
  | cons x xs ih =>
    rw [List.mapM_cons] at h
    cases hx : f x with
    | error e =>
      rw [hx] at h
      cases h
    | ok y =>
      cases hxs : xs.mapM f with
      | error e =>
        rw [hx, hxs] at h
        cases h
      | ok ys' =>
        rw [hx, hxs] at h
        cases h
        cases k with
        | zero => exact .some hx
        | succ k => exact ih hxs k

theorem error_of_map {α β δ : Type} {f : α → β} {x : Except δ α} {e : δ}
    (h : f <$> x = .error e) : x = .error e := by
  cases x with
  | error e' =>
    cases h
    rfl
  | ok a => cases h

namespace Argument

variable {name : String} {v : Variable} {a : VariableArray}

theorem badArgument_of_storeIn {source : Value} {e : ExecError}
    (h : storeIn name v source = .error e) : ∃ reason, e = .badArgument name reason := by
  unfold storeIn at h
  split at h
  · cases h
  · cases h
    exact ⟨_, rfl⟩

theorem badArgument_of_storeInArray {first : Value} {rest : List Value} {e : ExecError}
    (h : storeInArray name a first rest = .error e) : ∃ reason, e = .badArgument name reason := by
  unfold storeInArray at h
  dsimp only at h
  obtain ⟨p, -, hp⟩ := exists_error_of_mapM (error_of_map h)
  revert hp
  generalize (if rest.isEmpty then some first else (first :: rest)[p.2]?) = source?
  intro hp
  cases source? with
  | some source => exact badArgument_of_storeIn hp
  | none => cases hp

end Argument

namespace Machine

variable {ε : Type} [Environment ε] {m m' : Machine} {env : ε} {name : String} {arg : Argument}
variable {space : Option String}

/-- A parameter that is set is a local that the name is found at. -/
theorem setArgument_cases (h : m.setArgument env name arg space = .ok m') :
    ∃ k l, m' = { m with locals := m.locals.setIfInBounds k l } ∧
      ((∃ v w source, m.locals[k]? = some (.scalar v) ∧ l = .scalar w ∧
        Argument.storeIn name v source = .ok w) ∨
      ∃ a b first rest, m.locals[k]? = some (.array a) ∧ l = .array b ∧
        Argument.storeInArray name a first rest = .ok b) := by
  unfold setArgument at h
  cases hk : m.program.localIndex? name with
  | none => simp [hk] at h
  | some k =>
    cases hd : m.program.locals[k]? with
    | none => simp [hk, hd] at h
    | some d =>
      simp only [hk, hd] at h
      split at h
      · cases h
      · cases h
      split at h
      · rename_i first rest _ _ v hv
        cases hw : Argument.storeIn name v first with
        | error e =>
          rw [hw] at h
          cases h
        | ok w =>
          rw [hw] at h
          cases h
          exact ⟨k, .scalar w, rfl, .inl ⟨v, w, first, hv, rfl, hw⟩⟩
      · rename_i first rest _ _ a ha
        cases hb : Argument.storeInArray name a first rest with
        | error e =>
          rw [hb] at h
          cases h
        | ok b =>
          rw [hb] at h
          cases h
          exact ⟨k, .array b, rfl, .inr ⟨a, b, first, rest, ha, rfl, hb⟩⟩
      · cases h

/-- A parameter that is not set is unknown, or its argument does not fit. -/
theorem setArgument_error {e : ExecError} (h : m.setArgument env name arg space = .error e) :
    e = .unknownArgument name ∨ (∃ reason, e = .badArgument name reason) ∨
      ∃ k, m.program.localIndex? name = some k ∧
        (m.program.locals[k]? = none ∨ m.locals[k]? = none) := by
  unfold setArgument at h
  cases hk : m.program.localIndex? name with
  | none =>
    simp only [hk] at h
    cases h
    exact .inl rfl
  | some k =>
    cases hd : m.program.locals[k]? with
    | none => exact .inr (.inr ⟨k, rfl, .inl hd⟩)
    | some d =>
      simp only [hk, hd] at h
      split at h
      · cases h
        exact .inr (.inl ⟨_, rfl⟩)
      · cases h
        exact .inr (.inl ⟨_, rfl⟩)
      split at h
      · rename_i first rest _ _ v hv
        cases hw : Argument.storeIn name v first with
        | error e' =>
          rw [hw] at h
          cases h
          exact .inr (.inl (Argument.badArgument_of_storeIn hw))
        | ok w =>
          rw [hw] at h
          cases h
      · rename_i first rest _ _ a ha
        cases hb : Argument.storeInArray name a first rest with
        | error e' =>
          rw [hb] at h
          cases h
          exact .inr (.inl (Argument.badArgument_of_storeInArray hb))
        | ok b =>
          rw [hb] at h
          cases h
      · rename_i hl
        exact .inr (.inr ⟨k, rfl, .inr hl⟩)

end Machine

end ShadingMachine
