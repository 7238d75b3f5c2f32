import Mathlib.Data.Multiset.Count
import ShadingMachine.Proofs.Execution.Argument
import ShadingMachine.Proofs.Execution.Instruction
import ShadingMachine.Proofs.Execution.Reached

/-! Every slot of a pool is in one place: among the free ones, on the stack, or in the hands of the
instruction that works. The last two are the taken slots, and a pool counts them. A taken slot keeps
its value whatever happens to the other slots, since no two taken slots are the same. -/
namespace ShadingMachine

namespace Pool

theorem places_allocate {q : Pool} (taken : Nat → Nat)
    (h : ∀ i, q.free.count i + taken i = if i < q.slots.size then 1 else 0) (s : Storage)
    (n i : Nat) :
    (q.allocate s n).2.free.count i + (taken i + if i = (q.allocate s n).1 then 1 else 0) =
      if i < (q.allocate s n).2.slots.size then 1 else 0 := by
  have hi := h i
  unfold allocate
  cases hf : q.free with
  | nil =>
    rw [hf, List.count_nil] at hi
    simp only [Array.size_push, List.count_nil]
    split at hi <;> split <;> split <;> omega
  | cons j free =>
    rw [hf, List.count_cons] at hi
    simp only [Array.size_modify, beq_iff_eq, eq_comm (a := i) (b := j)] at hi ⊢
    omega

theorem places_release {q : Pool} (taken : Nat → Nat) {j : Nat}
    (h : ∀ i, q.free.count i + (taken i + if i = j then 1 else 0) =
      if i < q.slots.size then 1 else 0) (i : Nat) :
    (q.release j).free.count i + taken i = if i < (q.release j).slots.size then 1 else 0 := by
  show (j :: q.free).count i + taken i = if i < q.slots.size then 1 else 0
  rw [← h i, List.count_cons]
  simp only [beq_iff_eq, eq_comm (a := j) (b := i)]
  omega

end Pool

namespace Pools

/-- The slots outside the free lists are the taken ones, each taken once, and the pools count
them. -/
structure Accounts (p : Pools) (taken : Multiset Slot) : Prop where
  places (s : Slot) : (p.get s.type s.detail).free.count s.index + taken.count s =
    if s.index < (p.get s.type s.detail).slots.size then 1 else 0
  inUse (type : ValueType) (detail : Detail) : (p.get type detail).inUse =
    taken.countP fun s => s.type = type ∧ s.detail = detail

theorem get_empty (type : ValueType) (detail : Detail) : empty.get type detail = .empty := by
  simp [get, empty]

theorem accounts_empty : empty.Accounts 0 where
  places s := by simp [get_empty, Pool.empty]
  inUse type detail := by simp [get_empty, Pool.empty]

variable {p : Pools} {taken : Multiset Slot}

theorem Accounts.allocate (h : p.Accounts taken) (type : ValueType) (detail : Detail) (n : Nat) :
    (p.allocate type detail n).2.Accounts ((p.allocate type detail n).1 ::ₘ taken) where
  places s := by
    have hp := Pool.places_allocate (q := p.get type detail)
      (fun i => taken.count ⟨type, detail, i⟩) (fun i => h.places ⟨type, detail, i⟩)
      type.storage (detail.length n) s.index
    obtain ⟨t, d, i⟩ := s
    simp only [Pools.allocate, get_set, Multiset.count_cons, Slot.mk.injEq]
    by_cases hk : type = t ∧ detail = d
    · obtain ⟨rfl, rfl⟩ := hk
      simpa using hp
    · have hk' : ¬(t = type ∧ d = detail ∧
          i = ((p.get type detail).allocate type.storage (detail.length n)).1) :=
        fun hc => hk ⟨hc.1.symm, hc.2.1.symm⟩
      simpa only [if_neg hk, if_neg hk', Nat.add_zero] using h.places ⟨t, d, i⟩
  inUse t d := by
    have hu := h.inUse t d
    simp only [Pools.allocate, get_set, Multiset.countP_cons]
    by_cases hk : type = t ∧ detail = d
    · obtain ⟨rfl, rfl⟩ := hk
      simp [hu]
    · simp [hk, hu]

theorem Accounts.release {slot : Slot} (h : p.Accounts (slot ::ₘ taken)) :
    (p.release slot).Accounts taken where
  places s := by
    obtain ⟨type, detail, j⟩ := slot
    have hp := Pool.places_release (q := p.get type detail) (j := j)
      (fun i => taken.count ⟨type, detail, i⟩) (fun i => by
        simpa [Multiset.count_cons] using h.places ⟨type, detail, i⟩) s.index
    obtain ⟨t, d, i⟩ := s
    simp only [Pools.release, get_set]
    by_cases hk : type = t ∧ detail = d
    · obtain ⟨rfl, rfl⟩ := hk
      rw [if_pos ⟨rfl, rfl⟩]
      exact hp
    · have hs := h.places ⟨t, d, i⟩
      have hne : (⟨t, d, i⟩ : Slot) ≠ ⟨type, detail, j⟩ := fun hc => by
        cases hc
        exact hk ⟨rfl, rfl⟩
      rw [Multiset.count_cons_of_ne hne] at hs
      simpa only [if_neg hk] using hs
  inUse t d := by
    have hu := h.inUse t d
    rw [Multiset.countP_cons] at hu
    simp only [Pools.release, get_set]
    by_cases hk : slot.type = t ∧ slot.detail = d
    · obtain ⟨rfl, rfl⟩ := hk
      simp [hu]
    · simpa [hk] using hu

theorem Accounts.store (h : p.Accounts taken) (slot : Slot) (d : Data) :
    (p.store slot d).Accounts taken where
  places s := by
    have hs := h.places s
    simp only [Pools.store, get_set]
    split
    · rename_i hk
      simpa [hk.1, hk.2] using hs
    · exact hs
  inUse t e := by
    have hu := h.inUse t e
    simp only [Pools.store, get_set]
    split
    · rename_i hk
      simpa [hk.1, hk.2] using hu
    · exact hu

theorem Accounts.releaseAll {slots : List Slot} (h : p.Accounts (slots + taken)) :
    (p.releaseAll slots).Accounts taken := by
  induction slots generalizing p with
  | nil => simpa using h
  | cons slot slots ih =>
    rw [← Multiset.cons_coe, Multiset.cons_add] at h
    exact ih h.release

end Pools

namespace Exec

variable {ε : Type}

/-- The taken slots are those in hand and those on the stack. -/
theorem stable_accounts : Stable fun held (s : Session ε) =>
    s.machine.pools.Accounts (held + s.machine.stack) where
  pop {held s slot rest} hs h := by
    show s.machine.pools.Accounts ((slot ::ₘ held) + rest)
    rwa [hs, ← Multiset.cons_coe, Multiset.add_cons, ← Multiset.cons_add] at h
  push {held s slot} h := by
    show s.machine.pools.Accounts (held + (slot :: s.machine.stack : List Slot))
    rwa [← Multiset.cons_coe, Multiset.add_cons, ← Multiset.cons_add]
  release {held s slot} h := by
    rw [Multiset.cons_add] at h
    exact h.release
  allocate type detail h := by
    rw [Multiset.cons_add]
    exact h.allocate type detail _
  store d h := h.store _ d
  host _ h := h
  write _ _ h := h
  writeElement _ _ _ h := h
  scatter _ h := h

end Exec

namespace Machine

/-- The stack holds every taken slot. -/
def Accounts (m : Machine) : Prop := m.pools.Accounts m.stack

theorem Accounts.step {ε : Type} [Environment ε] {m : Machine} (h : m.Accounts) (host : Host ε) :
    Exec.Ends Exec.step ⟨m, host⟩ (fun _ t => t.machine.Accounts)
      fun _ t => True ∧ t.machine.Accounts := by
  have hs := Exec.stable_accounts.ends_step (P := fun held m => m.pools.Accounts (held + m.stack))
    (fun _ _ _ h => h) (m := m) (by rwa [Multiset.zero_add]) host
  simp only [Multiset.zero_add] at hs
  exact hs

theorem Accounts.clearStack {m : Machine} (h : m.Accounts) : m.clearStack.Accounts := by
  have hr : m.pools.Accounts ((m.stack.reverse : Multiset Slot) + 0) := by
    rw [Multiset.coe_reverse, Multiset.add_zero]
    exact h
  exact hr.releaseAll

theorem Accounts.setArgument {ε : Type} [Environment ε] {m m' : Machine} {env : ε} {name : String}
    {arg : Argument} {space : Option String} (hm : m.setArgument env name arg space = .ok m')
    (h : m.Accounts) : m'.Accounts := by
  obtain ⟨k, l, rfl, -⟩ := setArgument_cases hm
  exact h

theorem closed_accounts : Closed Accounts fun _ => True where
  resize _ h := h
  argument _ hm h := h.setArgument hm
  argumentError _ _ _ := trivial
  start _ h := h
  step host h := h.step host
  stackImbalance _ _ := trivial
  poolImbalance _ _ _ := trivial
  clear h := h.clearStack
  alone h := h
  rejoin _ h := h

/-- Every slot that has been allocated is once in its free list or once on the stack, and each
pool counts its slots on the stack. -/
structure SlotsAccounted (m : Machine) : Prop where
  free_nodup (type : ValueType) (detail : Detail) : (m.pools.get type detail).free.Nodup
  free_lt (type : ValueType) (detail : Detail) :
    ∀ i ∈ (m.pools.get type detail).free, i < (m.pools.get type detail).slots.size
  stack_lt : ∀ s ∈ m.stack, s.index < (m.pools.get s.type s.detail).slots.size
  place (s : Slot) : s.index < (m.pools.get s.type s.detail).slots.size →
    (s.index ∈ (m.pools.get s.type s.detail).free ∧ s ∉ m.stack) ∨
      (s.index ∉ (m.pools.get s.type s.detail).free ∧ m.stack.count s = 1)
  inUse (type : ValueType) (detail : Detail) : (m.pools.get type detail).inUse =
    m.stack.countP fun s => s.type = type ∧ s.detail = detail

/-- No operand is left and no slot is in use. -/
def AllFree (m : Machine) : Prop :=
  m.stack = [] ∧ ∀ type detail, (m.pools.get type detail).inUse = 0

theorem Accounts.slotsAccounted {m : Machine} (h : m.Accounts) : m.SlotsAccounted where
  free_nodup type detail := by
    refine List.nodup_iff_count_le_one.mpr fun i => ?_
    have hp := h.places ⟨type, detail, i⟩
    split at hp <;> simp only at hp <;> omega
  free_lt type detail i hi := by
    have hp := h.places ⟨type, detail, i⟩
    have hc := List.count_pos_iff.mpr hi
    split at hp
    · assumption
    · simp only at hp
      omega
  stack_lt s hs := by
    have hp := h.places s
    have hc := List.count_pos_iff.mpr hs
    rw [Multiset.coe_count] at hp
    split at hp
    · assumption
    · omega
  place s hs := by
    have hp := h.places s
    rw [if_pos hs, Multiset.coe_count] at hp
    rw [← List.count_pos_iff, ← List.count_eq_zero (a := s)]
    omega
  inUse type detail := by
    have hu := h.inUse type detail
    rwa [Multiset.coe_countP] at hu

theorem Accounts.allFree {m : Machine} (h : m.Accounts) (hs : m.stack = []) : m.AllFree := by
  refine ⟨hs, fun type detail => ?_⟩
  have hu := h.slotsAccounted.inUse type detail
  rw [hu, hs]
  rfl

end Machine

namespace Data

@[simp] theorem storage_resize (d : Data) (n : Nat) : (d.resize n).storage = d.storage := rfl

@[simp] theorem storage_reshape (d : Data) (s : Storage) (n : Nat) :
    (d.reshape s n).storage = s := by
  unfold reshape
  split
  · assumption
  · rfl

end Data

namespace Pools

variable {p : Pools} {taken : Multiset Slot}

@[simp] theorem value_release (p : Pools) (slot s : Slot) :
    (p.release slot).value s = p.value s := by
  simp only [value, release, get_set]
  split
  · rename_i hk
    simp [hk.1, hk.2]
  · rfl

@[simp] theorem value_releaseAll (p : Pools) (slots : List Slot) (s : Slot) :
    (p.releaseAll slots).value s = p.value s := by
  induction slots generalizing p with
  | nil => rfl
  | cons slot slots ih => exact (ih (p.release slot)).trans (value_release p slot s)

theorem value_store_of_ne {slot s : Slot} (h : s ≠ slot) (d : Data) :
    (p.store slot d).value s = p.value s := by
  simp only [value, store, get_set]
  split
  · rename_i hk
    have hi : slot.index ≠ s.index := fun hi => by
      obtain ⟨t, e, j⟩ := s
      obtain ⟨t', e', j'⟩ := slot
      obtain ⟨rfl, rfl⟩ := hk
      exact h (by simpa using hi.symm)
    simp [hk.1, hk.2, hi]
  · rfl

namespace Accounts

theorem nodup (h : p.Accounts taken) : taken.Nodup := by
  refine Multiset.nodup_iff_count_le_one.mpr fun s => ?_
  have hp := h.places s
  split at hp <;> omega

theorem lt_size (h : p.Accounts taken) {s : Slot} (hs : s ∈ taken) :
    s.index < (p.get s.type s.detail).slots.size := by
  have hp := h.places s
  have hc := Multiset.count_pos.mpr hs
  split at hp
  · assumption
  · omega

theorem not_mem_free (h : p.Accounts taken) {s : Slot} (hs : s ∈ taken) :
    s.index ∉ (p.get s.type s.detail).free := by
  have hp := h.places s
  have hc := Multiset.count_pos.mpr hs
  rw [← List.count_pos_iff]
  split at hp <;> omega

theorem free_lt (h : p.Accounts taken) (type : ValueType) (detail : Detail) :
    ∀ i ∈ (p.get type detail).free, i < (p.get type detail).slots.size := fun i hi => by
  have hp := h.places ⟨type, detail, i⟩
  have hc := List.count_pos_iff.mpr hi
  split at hp
  · assumption
  · simp only at hp
    omega

theorem value_store (h : p.Accounts taken) {slot : Slot} (hs : slot ∈ taken) (d : Data) :
    (p.store slot d).value slot = ⟨slot.type, slot.detail, d⟩ := by
  simp [value, Pools.store, get_set, h.lt_size hs]

/-- The slots that are taken are left alone. -/
theorem value_allocate (h : p.Accounts taken) {s : Slot} (hs : s ∈ taken) (type : ValueType)
    (detail : Detail) (n : Nat) : (p.allocate type detail n).2.value s = p.value s := by
  simp only [value, Pools.allocate, get_set]
  split
  · rename_i hk
    obtain ⟨rfl, rfl⟩ := hk
    have hlt := h.lt_size hs
    have hfree := h.not_mem_free hs
    unfold Pool.allocate
    cases hf : (p.get s.type s.detail).free with
    | nil => simp [Array.getElem?_push, Nat.ne_of_lt hlt]
    | cons j free =>
      have hj : j ≠ s.index := fun hj => hfree (by simp [hf, hj])
      simp [Array.getElem?_modify, hj]
  · rfl

/-- A new slot is of the type and detail asked for and sized to the grid. -/
theorem shape_allocate (h : p.Accounts taken) (type : ValueType) (detail : Detail) (n : Nat) :
    let v := (p.allocate type detail n).2.value (p.allocate type detail n).1
    v.type = type ∧ v.detail = detail ∧ v.data.storage = type.storage ∧
      v.size = detail.length n := by
  refine ⟨rfl, rfl, ?_⟩
  have hlt := h.free_lt type detail
  simp only [value, Value.size, Pools.allocate, get_set, and_self, if_true]
  unfold Pool.allocate
  cases hf : (p.get type detail).free with
  | nil => exact ⟨by simp [Data.filled], by simp⟩
  | cons j free =>
    have hj : j < (p.get type detail).slots.size := hlt j (by simp [hf])
    simp [Array.getElem_modify, hj]

end Accounts

end Pools

end ShadingMachine
