import ShadingMachine.Proofs.Grid.Operands
import ShadingMachine.Proofs.Execution.Together
import ShadingMachine.Proofs.Lockstep.Values

/-! Two sessions that differ in their operands only, while an instruction works on slots in hand. Of
every slot the points are given at which its value is known to agree with that of the other
session; what lies at other points is left over from before and may be anything. The values also fit
the grid, as far as is asked. Taking operands and putting results keeps the two sessions in
lockstep. -/
namespace ShadingMachine

/-- A machine without its operands and its mask. -/
def Machine.frame (m : Machine) : Machine :=
  { m with stack := [], pools := .empty, mask := .empty 0 }

/-- The points at which the value of a slot is known. -/
abbrev Known := Slot → Nat → Prop

theorem Pools.Accounts.isShaped_allocate {p : Pools} {taken : Multiset Slot} (h : p.Accounts taken)
    (type : ValueType) (detail : Detail) (n : Nat) :
    ((p.allocate type detail n).2.value (p.allocate type detail n).1).IsShaped n :=
  ⟨(h.shape_allocate type detail n).2.2.1, (h.shape_allocate type detail n).2.2.2⟩

/-- What is asked of values on a grid of `n` points: varying ones are sized to it, and results have
it at once. -/
structure Value.Fitting (n : Nat) (V : Value → Prop) : Prop where
  of_shaped {v : Value} : v.IsShaped n → V v
  size {v : Value} : V v → v.detail = .varying → v.size = n

theorem Value.fitting_shaped {n : Nat} (hn : 0 < n) : Fitting n (IsShaped n) where
  of_shaped h := h
  size h hv := by
    have := h.size_varying hv
    unfold Value.size
    omega

theorem Value.fitting_sized {n : Nat} (hn : 0 < n) :
    Fitting n fun v => v.detail = .varying → v.size = n where
  of_shaped h := (fitting_shaped hn).size h
  size h := h

namespace Session

variable {ε : Type} {D : Detail → Detail → Prop} {V : Value → Prop} {K L : Known}
  {p p' q q' : Pools}

/-- Only operands have changed. -/
structure SameFrame (s s' : Session ε) : Prop where
  frame : s'.machine.frame = s.machine.frame
  mask : s'.machine.mask = s.machine.mask
  host : s'.host = s.host

namespace SameFrame

variable {s s' s'' : Session ε}

theorem trans (h : SameFrame s s') (h' : SameFrame s' s'') : SameFrame s s'' :=
  ⟨h'.frame.trans h.frame, h'.mask.trans h.mask, h'.host.trans h.host⟩

theorem gridSize (h : SameFrame s s') : s'.machine.gridSize = s.machine.gridSize := by
  show s'.machine.frame.gridSize = s.machine.frame.gridSize
  rw [h.frame]

end SameFrame

/-- The values of two slots agree at the points where the first is known, and fit the grid. -/
structure SlotsAgree (D : Detail → Detail → Prop) (V : Value → Prop) (K : Known) (p p' : Pools)
    (a b : Slot) : Prop where
  value : (p.value a).Agrees D (K a) (p'.value b)
  fits : V (p.value a)
  fits' : V (p'.value b)

theorem forall₂_slotsAgree {as bs : List Slot} (h : List.Forall₂ (SlotsAgree D V K p p') as bs)
    (hp : ∀ a ∈ as, q.value a = p.value a ∧ L a = K a) (hp' : ∀ b ∈ bs, q'.value b = p'.value b) :
    List.Forall₂ (SlotsAgree D V L q q') as bs := by
  induction h with
  | nil => exact .nil
  | @cons a b as bs hab _ ih =>
    obtain ⟨ha, has⟩ := List.forall_mem_cons.mp hp
    obtain ⟨hb, hbs⟩ := List.forall_mem_cons.mp hp'
    exact .cons ⟨by rw [ha.1, ha.2, hb]; exact hab.value, by rw [ha.1]; exact hab.fits,
      by rw [hb]; exact hab.fits'⟩ (ih has hbs)

/-- Sessions on one grid with the same frame, whose operands, in hand and on the stack, agree as far
as they are known. -/
structure Lockstep (D : Detail → Detail → Prop) (V : Value → Prop) (K : Known)
    (hand hand' : List Slot) (s t : Session ε) : Prop where
  frame : t.machine.frame = s.machine.frame
  host : t.host = s.host
  fitting : Value.Fitting s.machine.gridSize V
  accounts : s.machine.pools.Accounts (hand + s.machine.stack)
  accounts' : t.machine.pools.Accounts (hand' + t.machine.stack)
  hand : List.Forall₂ (SlotsAgree D V K s.machine.pools t.machine.pools) hand hand'
  stack : List.Forall₂ (SlotsAgree D V K s.machine.pools t.machine.pools)
    s.machine.stack t.machine.stack

/-- The same while an instruction works, under one mask. -/
structure InStep (D : Detail → Detail → Prop) (V : Value → Prop) (K : Known)
    (hand hand' : List Slot) (s t : Session ε) : Prop extends Lockstep D V K hand hand' s t where
  mask : t.machine.mask = s.machine.mask

variable {hand hand' : List Slot} {s t : Session ε}

namespace Lockstep

/-- What can be read off the frame is the same. -/
theorem of_frame {α : Type} (h : Lockstep D V K hand hand' s t) (f : Machine → α)
    (hf : ∀ m, f m.frame = f m) : f t.machine = f s.machine := by
  rw [← hf, h.frame, hf]

theorem program (h : Lockstep D V K hand hand' s t) : t.machine.program = s.machine.program :=
    h.of_frame Machine.program fun _ => rfl

theorem config (h : Lockstep D V K hand hand' s t) : t.machine.config = s.machine.config :=
    h.of_frame Machine.config fun _ => rfl

theorem locals (h : Lockstep D V K hand hand' s t) : t.machine.locals = s.machine.locals :=
    h.of_frame Machine.locals fun _ => rfl

theorem gridSize (h : Lockstep D V K hand hand' s t) : t.machine.gridSize = s.machine.gridSize :=
    h.of_frame Machine.gridSize fun _ => rfl

theorem segment (h : Lockstep D V K hand hand' s t) : t.machine.segment = s.machine.segment :=
    h.of_frame Machine.segment fun _ => rfl

theorem position (h : Lockstep D V K hand hand' s t) : t.machine.position = s.machine.position :=
    h.of_frame Machine.position fun _ => rfl

theorem sameOutside (h : Lockstep D V K hand hand' s t) : s.SameOutside t := ⟨h.locals, h.host⟩

theorem length_stack (h : Lockstep D V K hand hand' s t) :
    s.machine.stack.length = t.machine.stack.length := h.stack.length_eq

end Lockstep

namespace InStep

/-- The operands in hand agree where all of them are known. -/
theorem operands (h : InStep D V K hand hand' s t) {P : Nat → Prop}
    (hP : ∀ a ∈ hand, ∀ i, P i → K a i) :
    List.Forall₂ (Value.Agrees D P) (hand.map s.machine.pools.value)
      (hand'.map t.machine.pools.value) := by
  rw [List.forall₂_map_left_iff, List.forall₂_map_right_iff]
  have hhand := h.hand
  clear h
  induction hhand with
  | nil => exact .nil
  | cons hab _ ih =>
    obtain ⟨ha, has⟩ := List.forall_mem_cons.mp hP
    exact .cons (hab.value.imp ha) (ih has)

theorem types_eq (h : InStep D V K hand hand' s t) : hand.map (·.type) = hand'.map (·.type) := by
  have hhand := h.hand
  clear h
  induction hhand with
  | nil => rfl
  | cons hab _ ih =>
    rw [List.map_cons, List.map_cons, ih]
    exact congrArg (· :: _) hab.value.type

theorem details (h : InStep D V K hand hand' s t) :
    List.Forall₂ D (hand.map (·.detail)) (hand'.map (·.detail)) := by
  rw [List.forall₂_map_left_iff, List.forall₂_map_right_iff]
  exact h.hand.imp fun _ _ hab => hab.value.detail

/-- Less may be known. -/
theorem weaken (h : InStep D V K hand hand' s t) (hL : ∀ a i, L a i → K a i) :
    InStep D V L hand hand' s t := by
  have hslots {as bs : List Slot}
      (has : List.Forall₂ (SlotsAgree D V K s.machine.pools t.machine.pools) as bs) :
      List.Forall₂ (SlotsAgree D V L s.machine.pools t.machine.pools) as bs :=
    has.imp fun a _ hab => ⟨hab.value.imp (hL a), hab.fits, hab.fits'⟩
  exact { h with hand := hslots h.hand, stack := hslots h.stack }

/-- The host changes in the same way on both sides. -/
theorem serve (h : InStep D V K hand hand' s t) (host : Host ε) :
    InStep D V K hand hand' { s with host } { t with host } := { h with host := rfl }

/-- The slots in hand are given back. -/
theorem release (h : InStep D V K hand hand' s t) :
    InStep D V K [] []
      { s with machine := { s.machine with pools := s.machine.pools.releaseAll hand } }
      { t with machine := { t.machine with pools := t.machine.pools.releaseAll hand' } } where
  frame := h.frame
  host := h.host
  fitting := h.fitting
  accounts := by simpa using h.accounts.releaseAll
  accounts' := by simpa using h.accounts'.releaseAll
  hand := .nil
  stack := forall₂_slotsAgree h.stack (fun _ _ => ⟨Pools.value_releaseAll .., rfl⟩)
    fun _ _ => Pools.value_releaseAll ..
  mask := h.mask

end InStep

/-- The number on top of the stack. -/
def count (s : Session ε) : Nat :=
  match s.machine.stack with
  | slot :: _ => Scalar.toIndex ((s.machine.pools.value slot).getFloat 0)
  | [] => 0

/-- Results have been put on what was left of the two stacks, and are known at the points of `P`. -/
def Pushed (D : Detail → Detail → Prop) (V : Value → Prop) (K : Known) (P : Nat → Prop)
    (detail detail' : Detail) (rest rest' : List Slot) (s t : Session ε) : Prop :=
  ∃ a b, s.machine.stack = a :: rest ∧ t.machine.stack = b :: rest' ∧ a.detail = detail ∧
    b.detail = detail' ∧ InStep D V (Function.update K a P) [] [] s t

theorem Pushed.imp {P Q : Nat → Prop} {detail detail' : Detail} {rest rest' : List Slot}
    (h : Pushed D V K P detail detail' rest rest' s t) (hQ : ∀ i, Q i → P i) :
    Pushed D V K Q detail detail' rest rest' s t := by
  obtain ⟨a, b, hs, ht, ha, hb, hstep⟩ := h
  refine ⟨a, b, hs, ht, ha, hb, hstep.weaken fun slot i hi => ?_⟩
  by_cases hslot : slot = a
  · subst hslot
    rw [Function.update_self] at hi ⊢
    exact hQ i hi
  · rwa [Function.update_of_ne hslot] at hi ⊢

theorem InStep.put (h : InStep D V K hand hand' s t) {type : ValueType} {detail detail' : Detail}
    {d d' : Data} {P : Nat → Prop}
    (hd : Value.Agrees D P ⟨type, detail, d⟩ ⟨type, detail', d'⟩)
    (hfits : V ⟨type, detail, d⟩) (hfits' : V ⟨type, detail', d'⟩) :
    Pushed D V K P detail detail' s.machine.stack t.machine.stack
      { s with machine := s.machine.put type detail hand d }
      { t with machine := t.machine.put type detail' hand' d' } := by
  have ha := h.accounts.allocate type detail s.machine.gridSize
  have hstack := forall₂_slotsAgree
    (L := Function.update K (s.machine.pools.allocate type detail s.machine.gridSize).1 P) h.stack
    (fun a hmem => ⟨Machine.value_put h.accounts type detail d a hmem, Function.update_of_ne (fun he =>
      (Multiset.nodup_cons.mp ha.nodup).1 (by simp [← he, hmem])) ..⟩)
    (Machine.value_put h.accounts' type detail' d')
  have hslots : SlotsAgree D V
      (Function.update K (s.machine.pools.allocate type detail s.machine.gridSize).1 P)
      (s.machine.put type detail hand d).pools (t.machine.put type detail' hand' d').pools
      (s.machine.pools.allocate type detail s.machine.gridSize).1
      (t.machine.pools.allocate type detail' t.machine.gridSize).1 := by
    refine ⟨?_, ?_, ?_⟩
    · rw [Machine.value_put_new h.accounts, Machine.value_put_new h.accounts', Function.update_self]
      exact hd
    · rw [Machine.value_put_new h.accounts]
      exact hfits
    · rw [Machine.value_put_new h.accounts']
      exact hfits'
  exact ⟨_, _, rfl, rfl, rfl, rfl,
    ⟨h.frame, h.host, h.fitting, by simpa using Machine.accounts_put h.accounts type detail d,
      by simpa using Machine.accounts_put h.accounts' type detail' d', .nil, .cons hslots hstack⟩,
    h.mask⟩

end Session

namespace Exec

open Session

variable {ε : Type} {D : Detail → Detail → Prop} {V : Value → Prop} {K : Known}
  {hand hand' : List Slot} {s t : Session ε}

/-- The environment is asked the same on both sides. -/
theorem paired_serve {α : Type} (h : InStep D V K hand hand' s t) (x : Serving ε α) :
    Paired (serve x) s (serve x) t fun a s' b t' =>
      a = b ∧ s'.machine = s.machine ∧ t'.machine = t.machine ∧ InStep D V K hand hand' s' t' := by
  have hserve := h.serve (x.run s.host).2
  show (x.run s.host).1 = (x.run t.host).1 ∧ _ ∧ _ ∧ InStep D V K hand hand' { s with
    host := (x.run s.host).2 } { t with host := (x.run t.host).2 }
  rw [h.host]
  exact ⟨rfl, rfl, rfl, hserve⟩

theorem paired_popOne (h : InStep D V K [] [] s t) (i : Instruction) :
    Paired (popOne i) s (popOne i) t fun slot s' slot' t' =>
      s.machine.stack = slot :: s'.machine.stack ∧ t.machine.stack = slot' :: t'.machine.stack ∧
        s'.machine.pools = s.machine.pools ∧ s.SameFrame s' ∧ InStep D V K [slot] [slot'] s' t' := by
  have hstack := h.stack
  have ha := h.accounts
  have ha' := h.accounts'
  unfold popOne
  rw [paired_machine_bind]
  generalize hs : s.machine.stack = stack at hstack ha
  generalize ht : t.machine.stack = stack' at hstack ha'
  cases hstack with
  | nil => exact paired_throw _ h.sameOutside
  | cons hv hvs =>
    exact ⟨rfl, rfl, rfl, ⟨rfl, rfl, rfl⟩, { h with
      frame := h.frame
      accounts := by simpa [← Multiset.cons_coe] using ha
      accounts' := by simpa [← Multiset.cons_coe] using ha'
      hand := .cons hv .nil
      stack := hvs }⟩

theorem paired_pop (h : InStep D V K [] [] s t) (i : Instruction) (k : Nat) :
    Paired (pop i k) s (pop i k) t fun slots s' slots' t' =>
      (slots = (s.machine.stack.take k).reverse ∧ slots.length = k ∧
        s'.machine.stack = s.machine.stack.drop k) ∧
      (slots' = (t.machine.stack.take k).reverse ∧ t'.machine.stack = t.machine.stack.drop k) ∧
      s.SameFrame s' ∧ InStep D V K slots slots' s' t' := by
  unfold pop
  rw [paired_machine_bind]
  dsimp only
  rw [← h.length_stack]
  by_cases hk : s.machine.stack.length < k
  · rw [if_pos hk, if_pos hk]
    exact paired_throw _ h.sameOutside
  · rw [if_neg hk, if_neg hk]
    have hcoe (stack : List Slot) :
        (((stack.take k).reverse : List Slot) + (stack.drop k : List Slot) : Multiset Slot) =
          (([] : List Slot) + stack : Multiset Slot) := by
      rw [Multiset.coe_reverse, Multiset.coe_add, List.take_append_drop]
      simp
    refine ⟨⟨rfl, ?_, rfl⟩, ⟨rfl, rfl⟩, ⟨rfl, rfl, rfl⟩, { h with
      frame := h.frame
      accounts := ?_
      accounts' := ?_
      hand := List.rel_reverse (List.forall₂_take k h.stack)
      stack := List.forall₂_drop k h.stack }⟩
    · rw [List.length_reverse, List.length_take]
      omega
    · show s.machine.pools.Accounts _
      rw [hcoe]
      exact h.accounts
    · show t.machine.pools.Accounts _
      rw [hcoe]
      exact h.accounts'

/-- The value on top is taken and its slot given back. -/
theorem paired_popValue (h : InStep D V K [] [] s t) (i : Instruction) :
    Paired (popValue i) s (popValue i) t fun v s' w t' =>
      ∃ slot, s.machine.stack = slot :: s'.machine.stack ∧ t.machine.stack.tail = t'.machine.stack ∧
        v = s.machine.pools.value slot ∧ v.Agrees D (K slot) w ∧ s.SameFrame s' ∧
        InStep D V K [] [] s' t' := by
  refine (paired_popOne h i).bind fun slot s' slot' t' h' => ?_
  obtain ⟨hs, ht, hpools, hframe, h'⟩ := h'
  rw [paired_value_bind]
  obtain ⟨hv, -⟩ := List.forall₂_cons.mp h'.hand
  exact ⟨slot, hs, by rw [ht]; rfl, by rw [hpools], hv.value, hframe.trans ⟨rfl, rfl, rfl⟩,
    h'.release⟩

/-- The count is the same if it is known at the point where it is read. -/
theorem paired_popCount (h : InStep D V K [] [] s t) (i : Instruction)
    (hknown : ∀ slot ∈ s.machine.stack.head?, K slot 0) :
    Paired (popCount i) s (popCount i) t fun k s' k' t' => (k = s.count ∧ k' = s.count) ∧
      (s'.machine.stack = s.machine.stack.tail ∧ t'.machine.stack = t.machine.stack.tail) ∧
      s.SameFrame s' ∧ InStep D V K [] [] s' t' := by
  unfold popCount
  refine (paired_popValue h i).bind fun v s' w t' hv => ?_
  obtain ⟨slot, hs, ht, rfl, hv, hframe, h'⟩ := hv
  dsimp only
  rw [← hv.storage, ← hv.type]
  have hget : w.getFloat 0 = (s.machine.pools.value slot).getFloat 0 :=
    (hv.get 0 (hknown slot (by rw [hs]; rfl)) .float).symm
  have hcount : s.count = Scalar.toIndex ((s.machine.pools.value slot).getFloat 0) := by
    unfold Session.count
    rw [hs]
  split
  · exact paired_throw _ h'.sameOutside
  · rw [paired_machine_bind, hget, ← hcount, ← h'.length_stack]
    split
    · exact paired_throw _ h'.sameOutside
    · exact ⟨⟨rfl, rfl⟩, ⟨by rw [hs]; rfl, ht.symm⟩, hframe, h'⟩

/-- A computed result, with what the environment does to compute it. -/
theorem produceAs_run (type : ValueType) (detail : Detail) (args : List Slot) (fill : Filling ε)
    (s : Session ε) :
    produceAs type detail args fill s =
      let new := s.machine.pools.allocate type detail s.machine.gridSize
      let filled := (fill (args.map new.2.value) (new.2.value new.1) s.machine.mask).run s.host
      match filled.1 with
      | .ok v => .ok () ⟨s.machine.put type detail args v.data, filled.2⟩
      | .error e => .error e
          ⟨{ s.machine with pools := (new.2.releaseAll args).release new.1 }, filled.2⟩ := by
  have hfilled : produceAs type detail args fill s =
      (let new := s.machine.pools.allocate type detail s.machine.gridSize
       let filled := (fill (args.map new.2.value) (new.2.value new.1) s.machine.mask).run s.host
       (match filled.1 with
        | .ok v => do
          store new.1 v.data
          release args
          push new.1
        | .error e => do
          release args
          release [new.1]
          throw e) ⟨{ s.machine with pools := new.2 }, filled.2⟩) := rfl
  rw [hfilled]
  dsimp only
  generalize (fill _ _ _).run s.host = filled
  cases filled.1 <;> rfl

/-- A result that agrees at the points of `P` whatever its slot held before. -/
theorem paired_produceAs (h : InStep D V K hand hand' s t) {type : ValueType} {detail detail' : Detail}
    {P : Nat → Prop} {f g : Filling ε}
    (hfg : ∀ out out' : Value, out.IsShaped s.machine.gridSize → out'.IsShaped s.machine.gridSize →
      out.type = type → out'.type = type → out.detail = detail → out'.detail = detail' →
      let r := (f (hand.map s.machine.pools.value) out s.machine.mask).run s.host
      let r' := (g (hand'.map t.machine.pools.value) out' s.machine.mask).run s.host
      SameOutcome (fun v w => v.Agrees D P w ∧ out.SameKind v ∧ out'.SameKind w) r.1 r'.1 ∧
        r'.2 = r.2) :
    Paired (produceAs type detail hand f) s (produceAs type detail' hand' g) t fun _ s' _ t' =>
      Pushed D V K P detail detail' s.machine.stack t.machine.stack s' t' := by
  have hargs : hand.map (s.machine.pools.allocate type detail s.machine.gridSize).2.value =
      hand.map s.machine.pools.value :=
    List.map_congr_left fun slot hm => h.accounts.value_allocate (by simp [hm]) ..
  have hargs' : hand'.map (t.machine.pools.allocate type detail' t.machine.gridSize).2.value =
      hand'.map t.machine.pools.value :=
    List.map_congr_left fun slot hm => h.accounts'.value_allocate (by simp [hm]) ..
  have hshape := h.accounts.isShaped_allocate type detail s.machine.gridSize
  have hshape' : ((t.machine.pools.allocate type detail' t.machine.gridSize).2.value
      (t.machine.pools.allocate type detail' t.machine.gridSize).1).IsShaped s.machine.gridSize := by
    rw [← h.gridSize]
    exact h.accounts'.isShaped_allocate ..
  obtain ⟨hresult, hhost⟩ := hfg _ _ hshape hshape' rfl rfl rfl rfl
  rw [← hargs, ← hargs'] at hresult hhost
  unfold Paired
  rw [produceAs_run, produceAs_run, h.mask, h.host]
  dsimp only
  generalize (f _ _ _).run s.host = r at hresult hhost ⊢
  generalize (g _ _ _).run s.host = r' at hresult hhost ⊢
  obtain ⟨r, host⟩ := r
  obtain ⟨r', host'⟩ := r'
  obtain rfl : host' = host := hhost
  cases hresult with
  | error e => exact ⟨rfl, h.locals, rfl⟩
  | @ok v w hv =>
    obtain ⟨hagrees, hkind, hkind'⟩ := hv
    have hfits {out v : Value} (hout : out.IsShaped s.machine.gridSize) (hv : out.SameKind v) :
        V ⟨out.type, out.detail, v.data⟩ :=
      h.fitting.of_shaped ⟨hv.storage.trans hout.storage, hv.size.trans hout.size⟩
    exact (h.serve host').put (hagrees.data hkind.type hkind.detail hkind'.detail)
      (hfits hshape hkind) (hfits hshape' hkind')

end Exec

end ShadingMachine
