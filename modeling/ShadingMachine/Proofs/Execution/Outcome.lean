import ShadingMachine.Machine.Stack

/-! What holds when a computation ends, of its value or of its error and of the session that it
leaves behind. Each building block of instructions has one rule, and the rules of sequencing and
of catching an error put them together. -/
namespace ShadingMachine.Exec

variable {ε α β : Type}

/-- Whichever way a computation ends, what is asked of that way holds. -/
def Ends (x : Exec ε α) (s : Session ε) (onValue : α → Session ε → Prop)
    (onError : ExecError → Session ε → Prop) : Prop :=
  match x s with
  | .ok a t => onValue a t
  | .error e t => onError e t

instance {x : Exec ε α} {s : Session ε} {Q : α → Session ε → Prop}
    {E : ExecError → Session ε → Prop} [∀ a t, Decidable (Q a t)] [∀ e t, Decidable (E e t)] :
    Decidable (Ends x s Q E) :=
  match h : x s with
  | .ok a t => decidable_of_iff (Q a t) (by rw [Ends, h])
  | .error e t => decidable_of_iff (E e t) (by rw [Ends, h])

section Rules

variable {s : Session ε} {Q : α → Session ε → Prop} {E : ExecError → Session ε → Prop}

theorem Ends.imp {x : Exec ε α} {Q' : α → Session ε → Prop} {E' : ExecError → Session ε → Prop}
    (h : Ends x s Q E) (hQ : ∀ a t, Q a t → Q' a t) (hE : ∀ e t, E e t → E' e t) :
    Ends x s Q' E' := by
  unfold Ends at h ⊢
  cases hx : x s with
  | ok a t => rw [hx] at h; exact hQ a t h
  | error e t => rw [hx] at h; exact hE e t h

theorem Ends.of_ok {x : Exec ε α} {a : α} {t : Session ε} (h : Ends x s Q E)
    (hx : x s = .ok a t) : Q a t := by
  unfold Ends at h
  rw [hx] at h
  exact h

theorem ends_of_ok {x : Exec ε α} {a : α} {t : Session ε} (hx : x s = .ok a t) (h : Q a t) :
    Ends x s Q E := by
  unfold Ends
  rw [hx]
  exact h

@[simp] theorem ends_pure (a : α) : Ends (pure a) s Q E ↔ Q a s := Iff.rfl

@[simp] theorem ends_bind {x : Exec ε β} {f : β → Exec ε α} :
    Ends (x >>= f) s Q E ↔ Ends x s (fun b t => Ends (f b) t Q E) E := by
  simp only [Ends, bind, EStateM.bind]
  cases x s <;> rfl

@[simp] theorem ends_map {x : Exec ε β} {f : β → α} :
    Ends (f <$> x) s Q E ↔ Ends x s (fun b t => Q (f b) t) E := by
  simp only [Ends, Functor.map, EStateM.map]
  cases x s <;> rfl

@[simp] theorem ends_throw (e : ExecError) : Ends (throw e) s Q E ↔ E e s := Iff.rfl

@[simp] theorem ends_get {Q : Session ε → Session ε → Prop} : Ends get s Q E ↔ Q s s := Iff.rfl

@[simp] theorem ends_set {t : Session ε} {Q : PUnit → Session ε → Prop} :
    Ends (set t) s Q E ↔ Q ⟨⟩ t := Iff.rfl

@[simp] theorem ends_machine {Q : Machine → Session ε → Prop} :
    Ends machine s Q E ↔ Q s.machine s := Iff.rfl

@[simp] theorem ends_environment {Q : ε → Session ε → Prop} :
    Ends environment s Q E ↔ Q s.host.env s := Iff.rfl

@[simp] theorem ends_modifyMachine {f : Machine → Machine} {Q : Unit → Session ε → Prop} :
    Ends (modifyMachine f) s Q E ↔ Q () { s with machine := f s.machine } := Iff.rfl

@[simp] theorem ends_serve {x : Serving ε α} :
    Ends (serve x) s Q E ↔ Q (x.run s.host).1 { s with host := (x.run s.host).2 } := Iff.rfl

@[simp] theorem ends_modifyEnvironment {f : ε → ε} {Q : Unit → Session ε → Prop} :
    Ends (modifyEnvironment f) s Q E ↔
      Q () { s with host := { s.host with env := f s.host.env } } := Iff.rfl

@[simp] theorem ends_attempt {x : Exec ε α} {Q : Except ExecError α → Session ε → Prop} :
    Ends (attempt x) s Q E ↔
      Ends x s (fun a t => Q (.ok a) t) (fun e t => Q (.error e) t) := by
  simp only [Ends, attempt]
  cases x s <;> rfl

@[simp] theorem ends_ofExcept_ok (a : α) :
    Ends (ofExcept (.ok a : Except ExecError α)) s Q E ↔ Q a s := Iff.rfl

@[simp] theorem ends_ofExcept_error (e : ExecError) :
    Ends (ofExcept (.error e : Except ExecError α)) s Q E ↔ E e s := Iff.rfl

theorem ends_ofExcept {x : Except ExecError α} :
    Ends (ofExcept x) s Q E ↔ (∀ a, x = .ok a → Q a s) ∧ ∀ e, x = .error e → E e s := by
  cases x <;> simp

theorem ends_and {x : Exec ε α} {Q' : α → Session ε → Prop} {E' : ExecError → Session ε → Prop} :
    Ends x s Q E ∧ Ends x s Q' E' ↔
      Ends x s (fun a t => Q a t ∧ Q' a t) fun e t => E e t ∧ E' e t := by
  unfold Ends
  cases x s <;> rfl

/-- What depends on a condition. -/
theorem ends_imp {p : Prop} {x : Exec ε α} :
    (p → Ends x s Q E) ↔ Ends x s (fun a t => p → Q a t) fun e t => p → E e t := by
  unfold Ends
  cases x s <;> rfl

theorem ends_eq (x : Exec ε α) : Ends x s (fun a t => x s = .ok a t) fun e t => x s = .error e t := by
  unfold Ends
  cases x s <;> rfl

theorem ends_total (x : Exec ε α) : Ends x s (fun _ _ => True) fun _ _ => True := by
  unfold Ends
  cases x s <;> trivial

theorem Ends.exists_ok {x : Exec ε α} {Q : α → Session ε → Prop}
    (h : Ends x s Q fun _ _ => False) : ∃ a t, x s = .ok a t ∧ Q a t := by
  unfold Ends at h
  cases hx : x s with
  | ok a t =>
    rw [hx] at h
    exact ⟨a, t, rfl, h⟩
  | error e t =>
    rw [hx] at h
    exact h.elim

theorem Ends.exists_error {x : Exec ε α} {E : ExecError → Session ε → Prop}
    (h : Ends x s (fun _ _ => False) E) : ∃ e t, x s = .error e t ∧ E e t := by
  unfold Ends at h
  cases hx : x s with
  | ok a t =>
    rw [hx] at h
    exact h.elim
  | error e t =>
    rw [hx] at h
    exact ⟨e, t, rfl, h⟩

end Rules

/-- The session that a computation leaves behind. -/
def after (x : Exec ε α) (s : Session ε) : Session ε :=
  match x s with
  | .ok _ t => t
  | .error _ t => t

theorem ends_iff_after {x : Exec ε α} {s : Session ε} {P : Session ε → Prop} :
    Ends x s (fun _ t => P t) (fun _ t => P t) ↔ P (x.after s) := by
  unfold Ends after
  cases x s <;> rfl

section Operands

variable {s : Session ε} {E : ExecError → Session ε → Prop} {i : Instruction} {slot : Slot}
  {rest : List Slot}

theorem ends_value {Q : Value → Session ε → Prop} :
    Ends (value slot) s Q E ↔ Q (s.machine.pools.value slot) s := Iff.rfl

theorem ends_values {slots : List Slot} {Q : List Value → Session ε → Prop} :
    Ends (values slots) s Q E ↔ Q (slots.map s.machine.pools.value) s := Iff.rfl

theorem ends_popOne (hstack : s.machine.stack = slot :: rest) {Q : Slot → Session ε → Prop} :
    Ends (popOne i) s Q E ↔ Q slot { s with machine := { s.machine with stack := rest } } := by
  unfold popOne
  rw [ends_bind, ends_machine, hstack]
  rfl

theorem pop_run (taken : List Slot) (hstack : s.machine.stack = taken ++ rest) :
    pop i taken.length s = .ok taken.reverse
      { s with machine := { s.machine with stack := rest } } := by
  have hends : Ends (pop i taken.length) s (fun slots t => slots = taken.reverse ∧
      t = { s with machine := { s.machine with stack := rest } }) fun _ _ => False := by
    unfold pop
    simp [hstack, Nat.not_lt.mpr (Nat.le_add_right taken.length rest.length)]
  obtain ⟨_, _, hrun, rfl, rfl⟩ := hends.exists_ok
  exact hrun

theorem popValue_run (i : Instruction) (hstack : s.machine.stack = slot :: rest) :
    popValue i s = .ok (s.machine.pools.value slot) { s with machine := { s.machine with
      stack := rest, pools := s.machine.pools.releaseAll [slot] } } := by
  have hends : Ends (popValue i) s (fun v t => v = s.machine.pools.value slot ∧
      t = { s with machine := { s.machine with
        stack := rest, pools := s.machine.pools.releaseAll [slot] } }) fun _ _ => False := by
    unfold popValue
    rw [ends_bind, ends_popOne hstack]
    exact ⟨rfl, rfl⟩
  obtain ⟨v, t, hrun, rfl, rfl⟩ := hends.exists_ok
  exact hrun

/-- The number on top of the stack, if as many operands are under it. -/
theorem popCount_run {n : Nat} (hstack : s.machine.stack = slot :: rest)
    (hfloat : (s.machine.pools.value slot).data.storage = .float)
    (hn : Scalar.toIndex ((s.machine.pools.value slot).getFloat 0) = n) (hle : n ≤ rest.length) :
    popCount i s = .ok n { s with machine := { s.machine with
      stack := rest, pools := s.machine.pools.releaseAll [slot] } } := by
  have hends : Ends (popCount i) s (fun m t => m = n ∧ t = { s with machine := { s.machine with
      stack := rest, pools := s.machine.pools.releaseAll [slot] } }) fun _ _ => False := by
    unfold popCount
    refine ends_bind.mpr (ends_of_ok (popValue_run i hstack) ?_)
    simp [hfloat, hn, Nat.not_lt.mpr hle]
  obtain ⟨_, _, hrun, rfl, rfl⟩ := hends.exists_ok
  exact hrun

end Operands

end ShadingMachine.Exec
