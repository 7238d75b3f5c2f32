import ShadingMachine.Proofs.Execution.Outcome

/-! Two computations side by side, each in a session of its own: they end in the same way, with
values that are related or with the same error. Two sessions that take the same moves are compared
move by move. -/
namespace ShadingMachine

/-- Two results, both a value or both the same error. -/
inductive SameOutcome {ε α β : Type} (R : α → β → Prop) : Except ε α → Except ε β → Prop
  | ok {a : α} {b : β} : R a b → SameOutcome R (.ok a) (.ok b)
  | error (e : ε) : SameOutcome R (.error e) (.error e)

namespace Exec

variable {ε ε' α α' β β' : Type}

/-- Both have a value, and values and sessions are related, or both have the same error. -/
def Together (x : Exec ε α) (s : Session ε) (y : Exec ε' β) (t : Session ε')
    (Q : α → Session ε → β → Session ε' → Prop) : Prop :=
  match x s, y t with
  | .ok a s', .ok b t' => Q a s' b t'
  | .error e _, .error e' _ => e = e'
  | _, _ => False

section Rules

variable {s : Session ε} {t : Session ε'} {Q : α → Session ε → β → Session ε' → Prop}

theorem Together.imp {x : Exec ε α} {y : Exec ε' β} {R : α → Session ε → β → Session ε' → Prop}
    (h : Together x s y t Q) (hQ : ∀ a s' b t', Q a s' b t' → R a s' b t') :
    Together x s y t R := by
  unfold Together at h ⊢
  cases hx : x s <;> cases hy : y t <;> rw [hx, hy] at h
  · exact hQ _ _ _ _ h
  · exact h
  · exact h
  · exact h

theorem Together.bind {x : Exec ε α'} {y : Exec ε' β'} {f : α' → Exec ε α} {g : β' → Exec ε' β}
    {R : α' → Session ε → β' → Session ε' → Prop} (h : Together x s y t R)
    (hf : ∀ a s' b t', R a s' b t' → Together (f a) s' (g b) t' Q) :
    Together (x >>= f) s (y >>= g) t Q := by
  unfold Together at h
  cases hx : x s <;> cases hy : y t <;> rw [hx, hy] at h
  · have hr := hf _ _ _ _ h
    unfold Together at hr ⊢
    simpa only [Bind.bind, EStateM.bind, hx, hy] using hr
  · exact h.elim
  · exact h.elim
  · unfold Together
    simpa only [Bind.bind, EStateM.bind, hx, hy] using h

/-- What is known of the first computation alone. -/
theorem Together.and_ends {x : Exec ε α} {y : Exec ε' β} {P : α → Session ε → Prop}
    {E : ExecError → Session ε → Prop} (h : Together x s y t Q) (hx : Ends x s P E) :
    Together x s y t fun a s' b t' => Q a s' b t' ∧ P a s' := by
  unfold Together Ends at *
  cases hr : x s <;> cases hy : y t <;> simp only [hr, hy] at h hx ⊢
  · exact ⟨h, hx⟩
  · exact h

/-- What is known of the second computation alone. -/
theorem Together.and_ends_right {x : Exec ε α} {y : Exec ε' β} {P : β → Session ε' → Prop}
    {E : ExecError → Session ε' → Prop} (h : Together x s y t Q) (hy : Ends y t P E) :
    Together x s y t fun a s' b t' => Q a s' b t' ∧ P b t' := by
  unfold Together Ends at *
  cases hr : x s <;> cases hr' : y t <;> simp only [hr, hr'] at h hy ⊢
  · exact ⟨h, hy⟩
  · exact h

/-- An error that is caught leaves nothing known of the sessions. -/
theorem Together.attempt_bind {x : Exec ε α'} {y : Exec ε' β'}
    {f : Except ExecError α' → Exec ε α} {g : Except ExecError β' → Exec ε' β}
    {R : α' → Session ε → β' → Session ε' → Prop} (h : Together x s y t R)
    (hok : ∀ a s' b t', R a s' b t' → Together (f (.ok a)) s' (g (.ok b)) t' Q)
    (herror : ∀ e s' t', Together (f (.error e)) s' (g (.error e)) t' Q) :
    Together (attempt x >>= f) s (attempt y >>= g) t Q := by
  unfold Together at h
  cases hx : x s with
  | ok a s' =>
    cases hy : y t with
    | ok b t' =>
      rw [hx, hy] at h
      have hr := hok a s' b t' h
      unfold Together at hr ⊢
      simpa only [Bind.bind, EStateM.bind, attempt, hx, hy] using hr
    | error e' t' => rw [hx, hy] at h; exact h.elim
  | error e s' =>
    cases hy : y t with
    | ok b t' => rw [hx, hy] at h; exact h.elim
    | error e' t' =>
      rw [hx, hy] at h
      have hr := herror e s' t'
      obtain rfl : e = e' := h
      unfold Together at hr ⊢
      simpa only [Bind.bind, EStateM.bind, attempt, hx, hy] using hr

@[simp] theorem together_pure (a : α) (b : β) :
    Together (pure a) s (pure b) t Q ↔ Q a s b t := Iff.rfl

@[simp] theorem together_throw (e e' : ExecError) :
    Together (throw e) s (throw e') t Q ↔ e = e' := Iff.rfl

theorem together_throw_bind (e : ExecError) (f : α' → Exec ε α) (g : β' → Exec ε' β) :
    Together (throw e >>= f) s (throw e >>= g) t Q := rfl

theorem Together.ofExcept {x : Except ExecError α} {y : Except ExecError β} {R : α → β → Prop}
    (h : SameOutcome R x y) (hQ : ∀ a b, R a b → Q a s b t) :
    Together (ofExcept x) s (ofExcept y) t Q := by
  cases h with
  | ok hab => exact hQ _ _ hab
  | error e => rfl

/-- What reads the program's own text is the same on both sides. -/
theorem Together.ofExcept_bind {x : Except ExecError α'} {f : α' → Exec ε α} {g : α' → Exec ε' β}
    (h : ∀ a, Together (f a) s (g a) t Q) :
    Together (MonadExcept.ofExcept x >>= f) s (MonadExcept.ofExcept x >>= g) t Q := by
  cases x with
  | ok a => exact h a
  | error e => rfl

theorem together_machine_bind {f : Machine → Exec ε α} {g : Machine → Exec ε' β} :
    Together (machine >>= f) s (machine >>= g) t Q ↔
      Together (f s.machine) s (g t.machine) t Q := Iff.rfl

theorem together_environment_bind {f : ε → Exec ε α} {g : ε' → Exec ε' β} :
    Together (environment >>= f) s (environment >>= g) t Q ↔
      Together (f s.host.env) s (g t.host.env) t Q := Iff.rfl

theorem together_value_bind {slot slot' : Slot} {f : Value → Exec ε α} {g : Value → Exec ε' β} :
    Together (value slot >>= f) s (value slot' >>= g) t Q ↔
      Together (f (s.machine.pools.value slot)) s (g (t.machine.pools.value slot')) t Q := Iff.rfl

end Rules

end Exec

/-! In lockstep, two computations that fail also leave the same locals and the same host. -/

/-- What can be seen of two sessions from outside is the same. -/
structure Session.SameOutside {ε : Type} (s t : Session ε) : Prop where
  locals : t.machine.locals = s.machine.locals
  host : t.host = s.host

namespace Exec

variable {ε α α' β β' : Type}

/-- Both have a value, and values and sessions are related, or both have the same error and look
the same from outside. -/
def Paired (x : Exec ε α) (s : Session ε) (y : Exec ε β) (t : Session ε)
    (Q : α → Session ε → β → Session ε → Prop) : Prop :=
  match x s, y t with
  | .ok a s', .ok b t' => Q a s' b t'
  | .error e s', .error e' t' => e = e' ∧ s'.SameOutside t'
  | _, _ => False

section Rules

variable {s t : Session ε} {Q : α → Session ε → β → Session ε → Prop}

theorem Paired.imp {x : Exec ε α} {y : Exec ε β} {R : α → Session ε → β → Session ε → Prop}
    (h : Paired x s y t Q) (hQ : ∀ a s' b t', Q a s' b t' → R a s' b t') : Paired x s y t R := by
  unfold Paired at h ⊢
  cases hx : x s <;> cases hy : y t <;> rw [hx, hy] at h
  · exact hQ _ _ _ _ h
  · exact h
  · exact h
  · exact h

theorem Paired.bind {x : Exec ε α'} {y : Exec ε β'} {f : α' → Exec ε α} {g : β' → Exec ε β}
    {R : α' → Session ε → β' → Session ε → Prop} (h : Paired x s y t R)
    (hf : ∀ a s' b t', R a s' b t' → Paired (f a) s' (g b) t' Q) :
    Paired (x >>= f) s (y >>= g) t Q := by
  unfold Paired at h
  cases hx : x s <;> cases hy : y t <;> rw [hx, hy] at h
  · have hr := hf _ _ _ _ h
    unfold Paired at hr ⊢
    simpa only [Bind.bind, EStateM.bind, hx, hy] using hr
  · exact h.elim
  · exact h.elim
  · unfold Paired
    simpa only [Bind.bind, EStateM.bind, hx, hy] using h

/-- What is known of the first computation alone. -/
theorem Paired.and_ends {x : Exec ε α} {y : Exec ε β} {P : α → Session ε → Prop}
    {E : ExecError → Session ε → Prop} (h : Paired x s y t Q) (hx : Ends x s P E) :
    Paired x s y t fun a s' b t' => Q a s' b t' ∧ P a s' := by
  unfold Paired Ends at *
  cases hr : x s <;> cases hy : y t <;> simp only [hr, hy] at h hx ⊢
  · exact ⟨h, hx⟩
  · exact h

/-- After an error is caught, the sessions still look the same from outside. -/
theorem Paired.attempt_bind {x : Exec ε α'} {y : Exec ε β'} {f : Except ExecError α' → Exec ε α}
    {g : Except ExecError β' → Exec ε β} {R : α' → Session ε → β' → Session ε → Prop}
    (h : Paired x s y t R)
    (hok : ∀ a s' b t', R a s' b t' → Paired (f (.ok a)) s' (g (.ok b)) t' Q)
    (herror : ∀ e s' t', s'.SameOutside t' → Paired (f (.error e)) s' (g (.error e)) t' Q) :
    Paired (attempt x >>= f) s (attempt y >>= g) t Q := by
  unfold Paired at h
  cases hx : x s with
  | ok a s' =>
    cases hy : y t with
    | ok b t' =>
      rw [hx, hy] at h
      have hr := hok a s' b t' h
      unfold Paired at hr ⊢
      simpa only [Bind.bind, EStateM.bind, attempt, hx, hy] using hr
    | error e' t' => rw [hx, hy] at h; exact h.elim
  | error e s' =>
    cases hy : y t with
    | ok b t' => rw [hx, hy] at h; exact h.elim
    | error e' t' =>
      rw [hx, hy] at h
      obtain ⟨rfl, houtside⟩ := h
      have hr := herror e s' t' houtside
      unfold Paired at hr ⊢
      simpa only [Bind.bind, EStateM.bind, attempt, hx, hy] using hr

/-- Whichever way they end, the sessions that are left look the same from outside. -/
theorem Paired.after {x : Exec ε α} {y : Exec ε β}
    (h : Paired x s y t fun _ s' _ t' => s'.SameOutside t') :
    (x.after s).SameOutside (y.after t) := by
  unfold Paired at h
  unfold Exec.after
  cases hx : x s <;> cases hy : y t <;> rw [hx, hy] at h
  · exact h
  · exact h.elim
  · exact h.elim
  · exact h.2

@[simp] theorem paired_pure (a : α) (b : β) : Paired (pure a) s (pure b) t Q ↔ Q a s b t := Iff.rfl

theorem paired_throw (e : ExecError) (h : s.SameOutside t) : Paired (throw e) s (throw e) t Q :=
  ⟨rfl, h⟩

/-- What is read of the program's own text, or of what both sessions have, is the same on both
sides. -/
theorem Paired.ofExcept_bind {x : Except ExecError α'} {f : α' → Exec ε α} {g : α' → Exec ε β}
    (houtside : s.SameOutside t) (h : ∀ a, x = .ok a → Paired (f a) s (g a) t Q) :
    Paired (MonadExcept.ofExcept x >>= f) s (MonadExcept.ofExcept x >>= g) t Q := by
  cases x with
  | ok a => exact h a rfl
  | error e => exact ⟨rfl, houtside⟩

theorem paired_machine_bind {f : Machine → Exec ε α} {g : Machine → Exec ε β} :
    Paired (machine >>= f) s (machine >>= g) t Q ↔ Paired (f s.machine) s (g t.machine) t Q :=
  Iff.rfl

theorem paired_environment_bind {f : ε → Exec ε α} {g : ε → Exec ε β} :
    Paired (environment >>= f) s (environment >>= g) t Q ↔
      Paired (f s.host.env) s (g t.host.env) t Q := Iff.rfl

theorem paired_value_bind {slot slot' : Slot} {f : Value → Exec ε α} {g : Value → Exec ε β} :
    Paired (value slot >>= f) s (value slot' >>= g) t Q ↔
      Paired (f (s.machine.pools.value slot)) s (g (t.machine.pools.value slot')) t Q := Iff.rfl

theorem paired_values_bind {slots slots' : List Slot} {f : List Value → Exec ε α}
    {g : List Value → Exec ε β} :
    Paired (values slots >>= f) s (values slots' >>= g) t Q ↔
      Paired (f (slots.map s.machine.pools.value)) s (g (slots'.map t.machine.pools.value)) t Q :=
  Iff.rfl

theorem paired_serve_bind {x : Serving ε α'} {y : Serving ε β'} {g : α' → Exec ε α}
    {g' : β' → Exec ε β} :
    Paired (serve x >>= g) s (serve y >>= g') t Q ↔
      Paired (g (x.run s.host).1) { s with host := (x.run s.host).2 }
        (g' (y.run t.host).1) { t with host := (y.run t.host).2 } Q := Iff.rfl

end Rules

end Exec

end ShadingMachine
