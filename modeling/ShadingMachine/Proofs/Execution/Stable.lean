import Mathlib.Data.Multiset.AddSub
import ShadingMachine.Machine.Step
import ShadingMachine.Proofs.Execution.Outcome

/-! What an instruction can do to a session, said once. An instruction works by few moves: it takes
slots from the stack, gives them back, allocates, stores and pushes them, asks the environment, and
assigns to variables. What every move keeps is kept by every instruction, also by one that fails;
between the moves an instruction holds slots in hand that are neither free nor on the stack. -/
namespace ShadingMachine

/-- Errors that come from the operands on the stack, the scopes, an index or the environment, and
not from the form of the program. -/
def ExecError.IsRuntime : ExecError → Prop
  | .stackUnderflow .. | .stateUnderflow .. | .operandType .. | .arrayIndex ..
  | .missingGraphicsVariable _ => True
  | _ => False

/-- The errors of reading the operands that an opcode asks for. -/
def Instruction.ReadError (i : Instruction) (locals : Locals) (e : ExecError) : Prop :=
  match i.code with
  | .pushFloat => i.float 0 = .error e
  | .pushPoint => i.float 0 = .error e ∨ i.float 1 = .error e ∨ i.float 2 = .error e
  | .pushString => i.string = .error e
  | .pushVariable | .popVariable | .service .attribute | .service .option =>
    i.variableRef = .error e ∨
      ∃ k, i.variableRef = .ok (.declared k) ∧ locals.scalar? k = .error e
  | .pushElement | .popElement =>
    i.variableRef = .error e ∨
      (∃ k, i.variableRef = .ok (.declared k) ∧ locals.array? k = .error e) ∨
      ∃ x, i.variableRef = .ok (.graphics x) ∧ e = .notAnArray x.name
  | .flow .jumpNoCurrent | .flow .jumpAllCurrent | .flow .jumpNoRunning | .flow .jumpAllRunning
  | .flow .jumpFalse | .flow .jumpTrue | .flow .jump => i.target = .error e
  | _ => False

namespace Exec

variable {ε : Type}

/-- A property of the slots in hand and the session that no move of an instruction ends. -/
structure Stable (I : Multiset Slot → Session ε → Prop) : Prop where
  pop {held s slot rest} : s.machine.stack = slot :: rest → I held s →
    I (slot ::ₘ held) { s with machine := { s.machine with stack := rest } }
  push {held s slot} : I (slot ::ₘ held) s →
    I held { s with machine := { s.machine with stack := slot :: s.machine.stack } }
  release {held s slot} : I (slot ::ₘ held) s →
    I held { s with machine := { s.machine with pools := s.machine.pools.release slot } }
  allocate {held s} (type : ValueType) (detail : Detail) : I held s →
    I ((s.machine.pools.allocate type detail s.machine.gridSize).1 ::ₘ held)
      { s with machine := { s.machine with
        pools := (s.machine.pools.allocate type detail s.machine.gridSize).2 } }
  store {held s slot} (d : Data) : I (slot ::ₘ held) s →
    I (slot ::ₘ held) { s with machine := { s.machine with pools := s.machine.pools.store slot d } }
  host {held s} (h : Host ε) : I held s → I held { s with host := h }
  write {held s k v w} {source : Value} : s.machine.locals[k]? = some (.scalar v) →
    v.assign source s.machine.mask = .ok w → I held s →
    I held { s with machine := { s.machine with
      locals := s.machine.locals.setIfInBounds k (.scalar w) } }
  writeElement {held s k a j v w} {source : Value} : s.machine.locals[k]? = some (.array a) →
    a.elements[j]? = some v → v.assign source s.machine.mask = .ok w → I held s →
    I held { s with machine := { s.machine with
      locals := s.machine.locals.setIfInBounds k
        (.array { a with elements := a.elements.setIfInBounds j w }) } }
  scatter {held s k a} {index source : Value} : s.machine.locals[k]? = some (.array a) →
    I held s →
    I held { s with machine := { s.machine with
      locals := s.machine.locals.setIfInBounds k
        (.array (a.scatter index source s.machine.mask.ones).1) } }

/-- From the property with `before` in hand a computation comes to the property with `after` in
hand; if it fails, with an error of `E`, it has given back what it had in hand. -/
def Keeps {α : Type} (I : Multiset Slot → Session ε → Prop) (E : ExecError → Prop) (x : Exec ε α)
    (before : Multiset Slot) (after : α → Multiset Slot) : Prop :=
  ∀ held s, I (before + held) s →
    Ends x s (fun a t => I (after a + held) t) fun e t => E e ∧ I held t

section Sequencing

variable {α β : Type} {I : Multiset Slot → Session ε → Prop} {E : ExecError → Prop}

theorem Keeps.bind {x : Exec ε α} {f : α → Exec ε β} {b : Multiset Slot} {c : α → Multiset Slot}
    {d : β → Multiset Slot} (hx : Keeps I E x b c) (hf : ∀ a, Keeps I E (f a) (c a) d) :
    Keeps I E (x >>= f) b d := fun held s h =>
  ends_bind.mpr ((hx held s h).imp (fun a t ht => hf a held t ht) fun _ _ he => he)

theorem keeps_pure (a : α) (after : α → Multiset Slot) :
    Keeps I E (pure a) (after a) after := fun _ _ h => h

theorem keeps_throw {e : ExecError} (he : E e) (after : α → Multiset Slot) :
    Keeps I E (throw e : Exec ε α) 0 after := fun held _ h => ⟨he, by simpa using h⟩

theorem keeps_machine (b : Multiset Slot) : Keeps I E machine b fun _ => b := fun _ _ h => h

theorem keeps_environment (b : Multiset Slot) : Keeps I E environment b fun _ => b :=
  fun _ _ h => h

theorem keeps_ofExcept {x : Except ExecError α} (hE : ∀ e, x = .error e → E e) :
    Keeps I E (ofExcept x) 0 fun _ => 0 := fun held s h => by
  cases x with
  | ok a => exact h
  | error e => exact ⟨hE e rfl, by simpa using h⟩

end Sequencing

section Moves

variable {I : Multiset Slot → Session ε → Prop} {E : ExecError → Prop}

theorem keeps_value (slot : Slot) (b : Multiset Slot) : Keeps I E (value slot) b fun _ => b :=
  fun _ _ h => h

theorem keeps_values (slots : List Slot) (b : Multiset Slot) :
    Keeps I E (values slots) b fun _ => b := fun _ _ h => h

variable (hI : Stable I)
include hI

theorem Stable.popList {held : Multiset Slot} {s : Session ε} {taken rest : List Slot}
    (hs : s.machine.stack = taken ++ rest) (h : I held s) :
    I (taken + held) { s with machine := { s.machine with stack := rest } } := by
  induction taken generalizing held s with
  | nil =>
    rw [List.nil_append] at hs
    rw [← hs]
    simpa using h
  | cons slot taken ih =>
    have hpop := ih (s := { s with machine := { s.machine with stack := taken ++ rest } }) rfl
      (hI.pop hs h)
    rwa [Multiset.add_cons, ← Multiset.cons_add, Multiset.cons_coe] at hpop

theorem Stable.releaseAll {held : Multiset Slot} {s : Session ε} {slots : List Slot}
    (h : I (slots + held) s) :
    I held { s with machine := { s.machine with
      pools := s.machine.pools.releaseAll slots } } := by
  induction slots generalizing s with
  | nil => simpa using h
  | cons slot slots ih =>
    rw [← Multiset.cons_coe, Multiset.cons_add] at h
    exact ih (hI.release h)

theorem keeps_release (slots : List Slot) (b : Multiset Slot) :
    Keeps I E (release slots) (slots + b) fun _ => b := fun held s h => by
  rw [Multiset.add_assoc] at h
  exact hI.releaseAll h

theorem keeps_serve {α : Type} (x : Serving ε α) (b : Multiset Slot) :
    Keeps I E (serve x) b fun _ => b := fun _ _ h => hI.host _ h

theorem keeps_allocate (type : ValueType) (detail : Detail) (b : Multiset Slot) :
    Keeps I E (allocate type detail) b fun slot => slot ::ₘ b := fun held s h => by
  have ha := hI.allocate type detail h
  rwa [← Multiset.cons_add] at ha

theorem keeps_store (slot : Slot) (d : Data) (b : Multiset Slot) :
    Keeps I E (store slot d) (slot ::ₘ b) fun _ => slot ::ₘ b := fun held s h => by
  rw [Multiset.cons_add] at h
  have hs := hI.store d h
  rwa [← Multiset.cons_add] at hs

theorem keeps_push (slot : Slot) (b : Multiset Slot) :
    Keeps I E (push slot) (slot ::ₘ b) fun _ => b := fun held s h => by
  rw [Multiset.cons_add] at h
  exact hI.push h

end Moves

end Exec

end ShadingMachine
