import ShadingMachine.Proofs.Lockstep.Elementwise
import ShadingMachine.Proofs.Slots.Balance

/-! Promotion of operands. Where a uniform operand is replaced by a varying one that holds the same
element at every point of the grid, an elementwise opcode computes the same at the active points,
or fails in the same way. Its result is uniform exactly if all it reads is, but for the number of
operands, which is read at one point. -/
namespace ShadingMachine

namespace Detail

/-- The detail itself, or varying in place of uniform. -/
def Widens (d e : Detail) : Prop := d = e ∨ d = .uniform ∧ e = .varying

theorem allows_widens : Allows Widens where
  refl _ := .inl rfl
  varying h := by
    rcases h with rfl | ⟨h, -⟩
    · rfl
    · cases h
  join h h' := by
    rcases h with rfl | ⟨rfl, rfl⟩
    · rcases h' with rfl | ⟨rfl, rfl⟩
      · exact .inl rfl
      · cases ‹Detail›
        · exact .inr ⟨rfl, rfl⟩
        · exact .inl rfl
    · rcases h' with rfl | ⟨rfl, rfl⟩
      · cases ‹Detail›
        · exact .inr ⟨rfl, rfl⟩
        · exact .inl rfl
      · exact .inr ⟨rfl, rfl⟩

end Detail

/-- Values of one type that fit a grid of `n` points: the same value twice, or a uniform value and
a varying one that holds its element at every point. -/
structure Value.Promotes (n : Nat) (v w : Value) : Prop where
  shaped : v.IsShaped n
  shaped' : w.IsShaped n
  type : v.type = w.type
  either : w = v ∨ v.detail = .uniform ∧ w.detail = .varying ∧
    ∀ k < n, w.get v.type.storage k = v.get v.type.storage 0

theorem Value.Promotes.agrees {n : Nat} {v w : Value} (h : v.Promotes n w) :
    v.Agrees Detail.Widens (· < n) w := by
  rcases h.either with rfl | ⟨hv, hw, hget⟩
  · exact .refl Detail.allows_widens _ _
  · have hs : v.data.storage = w.data.storage := by
      rw [h.shaped.storage, h.shaped'.storage, h.type]
    refine ⟨h.type, .inr ⟨hv, hw⟩, hs, fun _ hu => ?_, fun k hk s => ?_⟩
    · rw [hw] at hu
      cases hu
    · by_cases he : v.type.storage = s
      · rw [← he, hget k hk, Value.get_of_uniform hv _ k 0]
      · have hne : v.data.storage ≠ s := h.shaped.storage.trans_ne he
        unfold Value.get
        rw [Data.get_of_storage_ne hne, Data.get_of_storage_ne (hs ▸ hne)]

namespace Machine

/-- The values are put on the stack, the last one on top. -/
def putAll (m : Machine) (vs : List Value) : Machine :=
  vs.foldl (fun m v => m.put v.type v.detail [] v.data) m

variable {m : Machine}

theorem Accounts.nothing_in_hand (h : m.Accounts) :
    m.pools.Accounts (([] : List Slot) + m.stack) := by
  simpa [Accounts] using h

theorem Accounts.putAll (h : m.Accounts) (vs : List Value) : (m.putAll vs).Accounts := by
  induction vs generalizing m with
  | nil => exact h
  | cons v vs ih => exact ih (accounts_put h.nothing_in_hand ..)

theorem frame_putAll (m : Machine) (vs : List Value) : (m.putAll vs).frame = m.frame := by
  induction vs generalizing m with
  | nil => rfl
  | cons v vs ih => exact ih _

theorem mask_putAll (m : Machine) (vs : List Value) : (m.putAll vs).mask = m.mask := by
  induction vs generalizing m with
  | nil => rfl
  | cons v vs ih => exact ih _

theorem Accounts.operands_putAll (h : m.Accounts) (vs : List Value) :
    (m.putAll vs).stack.map (m.putAll vs).pools.value = vs.reverse ++ m.stack.map m.pools.value := by
  induction vs generalizing m with
  | nil => rfl
  | cons v vs ih =>
    have ha := h.nothing_in_hand
    have hput : (m.put v.type v.detail [] v.data).stack.map
        (m.put v.type v.detail [] v.data).pools.value = v :: m.stack.map m.pools.value := by
      show List.map _ ((m.pools.allocate v.type v.detail m.gridSize).1 :: m.stack) = _
      rw [List.map_cons, value_put_new ha, List.map_congr_left (value_put ha v.type v.detail v.data)]
    show ((m.put v.type v.detail [] v.data).putAll vs).stack.map _ = _
    rw [show (m.putAll (v :: vs)) = (m.put v.type v.detail [] v.data).putAll vs from rfl,
      ih (accounts_put ha ..), hput, List.reverse_cons, List.append_assoc]
    rfl

end Machine

namespace Session

variable {ε : Type} {s t : Session ε}

/-- What lies in the slots of the stack. -/
def operands (s : Session ε) : List Value := s.machine.stack.map s.machine.pools.value

/-- Sessions that differ in their operands only: some uniform ones of the first are varying in the
second. -/
structure Promotes (s t : Session ε) : Prop where
  sameFrame : s.SameFrame t
  grid : 0 < s.machine.gridSize
  accounts : s.machine.Accounts
  accounts' : t.machine.Accounts
  operands : List.Forall₂ (Value.Promotes s.machine.gridSize) s.operands t.operands

/-- Any choice of operands can be promoted. -/
theorem promotes_putAll {m : Machine} (hm : m.Accounts) (hstack : m.stack = [])
    (hgrid : 0 < m.gridSize) (host : Host ε) {vs ws : List Value}
    (h : List.Forall₂ (Value.Promotes m.gridSize) vs ws) :
    Promotes ⟨m.putAll vs, host⟩ ⟨m.putAll ws, host⟩ := by
  have hsize (us : List Value) : (m.putAll us).gridSize = m.gridSize := by
    show (m.putAll us).frame.gridSize = m.frame.gridSize
    rw [m.frame_putAll]
  refine ⟨⟨by rw [m.frame_putAll, m.frame_putAll], by rw [m.mask_putAll, m.mask_putAll], rfl⟩,
    by rw [hsize]; exact hgrid, hm.putAll vs, hm.putAll ws, ?_⟩
  show List.Forall₂ (Value.Promotes (m.putAll vs).gridSize) _ _
  unfold operands
  rw [hsize, hm.operands_putAll, hm.operands_putAll, hstack, List.map_nil, List.append_nil,
    List.append_nil]
  exact List.rel_reverse h

theorem Promotes.inStep (h : s.Promotes t) :
    InStep Detail.Widens (Value.IsShaped s.machine.gridSize) (fun _ k => k < s.machine.gridSize)
      [] [] s t where
  frame := h.sameFrame.frame
  host := h.sameFrame.host
  fitting := Value.fitting_shaped h.grid
  accounts := h.accounts.nothing_in_hand
  accounts' := h.accounts'.nothing_in_hand
  hand := .nil
  stack := by
    have hstack := h.operands
    unfold Session.operands at hstack
    rw [List.forall₂_map_left_iff, List.forall₂_map_right_iff] at hstack
    exact hstack.imp fun a b hab => ⟨hab.agrees, hab.shaped, hab.shaped'⟩
  mask := h.sameFrame.mask

/-- All that an elementwise opcode reads is uniform, the number of operands apart. -/
def ReadsUniform [Environment ε] (s : Session ε) (code : Opcode) : Prop :=
  (∀ slot ∈ s.inputs code, slot.detail = .uniform) ∧
    ∀ v ∈ s.references code, v.detail = .uniform

theorem resultDetail_eq_uniform_iff [Environment ε] (code : Opcode) :
    resultDetail (s.references code) (s.inputs code) = .uniform ↔ s.ReadsUniform code := by
  unfold resultDetail ReadsUniform
  rw [Detail.joinAll_eq_uniform_iff, and_comm]
  simp only [List.mem_append, List.mem_map, List.mem_reverse, or_imp, forall_and,
    forall_exists_index, and_imp, forall_apply_eq_imp_iff₂]

/-- An elementwise opcode under promotion. -/
theorem Promotes.dispatch_agrees [Environment ε] (h : s.Promotes t) (i : Instruction)
    (hcode : i.code.isComputation = true) :
    Exec.Paired (Exec.dispatch i) s (Exec.dispatch i) t fun r s' r' t' =>
      r = none ∧ r' = none ∧ t'.host = s'.host ∧
        ∃ a b, s'.machine.stack = a :: s.underInputs i.code ∧
          t'.machine.stack = b :: t.underInputs i.code ∧ a.type = b.type ∧
          (∀ k, s.Active k → (s'.machine.pools.value a).get a.type.storage k =
            (t'.machine.pools.value b).get a.type.storage k) ∧
          (a.detail = .uniform ↔ s.ReadsUniform i.code) ∧
          (b.detail = .uniform ↔ t.ReadsUniform i.code) := by
  refine (Exec.paired_elementwise Detail.allows_widens h.inStep i hcode (fun _ _ _ => h.grid)
    fun _ _ _ hk => hk.2).imp fun r s' r' t' hr => ?_
  obtain ⟨hr, hr', a, b, hs, ht, ha, hb, hstep⟩ := hr
  refine ⟨hr, hr', hstep.host, a, b, hs, ht, ?_⟩
  have hstack := hstep.stack
  rw [hs, ht] at hstack
  have hab := (List.forall₂_cons.mp hstack).1.value
  refine ⟨hab.type, fun k hk => hab.get k ?_ _, ?_, ?_⟩
  · rw [Function.update_self]
    exact hk
  · rw [ha]
    exact resultDetail_eq_uniform_iff _
  · rw [hb]
    exact resultDetail_eq_uniform_iff _

/-- A uniform number is added to a varying one, on a grid of two points. -/
theorem promotes_dispatch_agrees_sum :
    let m := (Machine.fresh ⟨.surface, "1", ⟨0⟩, #[], .empty, .empty⟩ .standard).resizeGrid 2
    let x : Value := ⟨.float, .uniform, ⟨.float, #[1]⟩⟩
    let x' : Value := ⟨.float, .varying, ⟨.float, #[1, 1]⟩⟩
    let y : Value := ⟨.float, .varying, ⟨.float, #[2, 3]⟩⟩
    let i : Instruction := ⟨"addff", .arithmetic .add .floats, 0, []⟩
    let s : Session Grid := ⟨m.putAll [x, y], .fresh 1 0, #[]⟩
    let t : Session Grid := ⟨m.putAll [x', y], .fresh 1 0, #[]⟩
    s.Promotes t ∧ ∃ s' t' a b, Exec.dispatch i s = .ok none s' ∧ Exec.dispatch i t = .ok none t' ∧
      s'.machine.stack = [a] ∧ t'.machine.stack = [b] ∧ ∀ k < 2,
        (s'.machine.pools.value a).get a.type.storage k =
          (t'.machine.pools.value b).get a.type.storage k := by
  intro m x x' y i s t
  have hs : s.Promotes t := by
    have hx : x.Promotes 2 x' := by
      refine ⟨⟨rfl, rfl⟩, ⟨rfl, rfl⟩, rfl, .inr ⟨rfl, rfl, fun k hk => ?_⟩⟩
      rcases k with _ | _ | k
      · rfl
      · rfl
      · omega
    have hy : y.Promotes 2 y := ⟨⟨rfl, rfl⟩, ⟨rfl, rfl⟩, rfl, .inl rfl⟩
    have hm : m.Accounts := Machine.closed_accounts.resize 2 (Machine.Reached.fresh.accounts)
    exact promotes_putAll hm rfl (by decide) _ (.cons hx (.cons hy .nil))
  have hi : i.code.isComputation = true := by decide +kernel
  have hok : ¬ Exec.Ends (Exec.dispatch i) s (fun _ _ => False) (fun _ _ => True) := by
    decide +kernel
  have hactive : ∀ k < 2, s.Active k := by decide +kernel
  have hunder : s.underInputs i.code = [] ∧ t.underInputs i.code = [] := by decide +kernel
  clear_value s t i
  have h := hs.dispatch_agrees i hi
  unfold Exec.Paired at h
  unfold Exec.Ends at hok
  cases hs' : Exec.dispatch i s <;> cases ht' : Exec.dispatch i t <;>
    simp only [hs', ht', not_true_eq_false] at h hok
  obtain ⟨rfl, rfl, -, a, b, ha, hb, -, hget, -⟩ := h
  rw [hunder.1] at ha
  rw [hunder.2] at hb
  exact ⟨hs, _, _, a, b, rfl, rfl, ha, hb, fun k hk => hget k (hactive k hk)⟩

end Session

namespace Exec

open Session

variable {ε : Type} {s : Session ε}

/-- Strings are joined whenever the count is a number and there are as many operands. -/
theorem dispatch_concat [Environment ε] (i : Instruction) (hcode : i.code = .string .concat)
    {slot : Slot} {rest : List Slot} (hs : s.machine.stack = slot :: rest)
    (hfloat : (s.machine.pools.value slot).data.storage = .float) (hcount : s.count ≤ rest.length) :
    ∃ s' a, dispatch i s = .ok none s' ∧ s'.machine.stack = a :: rest.drop s.count ∧
      a.detail = resultDetail [] (rest.take s.count) := by
  have hn : Scalar.toIndex ((s.machine.pools.value slot).getFloat 0) = s.count := by
    unfold count
    rw [hs]
  have hconcat : Ends (concatStrings i) s (fun _ s' => ∃ a, s'.machine.stack =
      a :: rest.drop s.count ∧ a.detail = resultDetail [] (rest.take s.count)) fun _ _ => False := by
    unfold concatStrings
    refine ends_bind.mpr (ends_of_ok (popCount_run hs hfloat hn hcount) ?_)
    unfold pop produce
    simp only [Nat.not_lt.mpr hcount, ends_bind, ends_machine, if_false, ends_modifyMachine,
      ends_pure]
    unfold Ends
    rw [produceAs_eq]
    refine ⟨_, rfl, ?_⟩
    simp [resultDetail]
  have hdispatch : Ends (dispatch i) s (fun r s' => r = none ∧ ∃ a, s'.machine.stack =
      a :: rest.drop s.count ∧ a.detail = resultDetail [] (rest.take s.count)) fun _ _ => False := by
    unfold dispatch
    rw [hcode]
    exact ends_bind.mpr (hconcat.imp (fun _ _ h => ⟨rfl, h⟩) fun _ _ h => h)
  obtain ⟨_, s', hrun, rfl, a, ha⟩ := hdispatch.exists_ok
  exact ⟨s', a, hrun, ha⟩

end Exec

namespace Session

/-- The count is read at the first point only: where it varies over uniform texts, they are joined
to a uniform one. -/
theorem uniform_text_of_varying_count :
    let count : Float32 := 1
    let text : Value := ⟨.string, .uniform, ⟨.string, #["a"]⟩⟩
    let number : Value := ⟨.float, .varying, ⟨.float, #[count]⟩⟩
    let m := Machine.fresh ⟨.surface, "1", ⟨0⟩, #[], .empty, .empty⟩ .standard
    let s : Session Grid :=
      ⟨m.putAll (List.replicate (Scalar.toIndex count) text ++ [number]), .fresh 0 0, #[]⟩
    ∃ s' a, Exec.dispatch ⟨"concat", .string .concat, 0, []⟩ s = .ok none s' ∧
      s'.machine.stack = [a] ∧
      ¬(a.detail = .uniform ↔ ∀ slot ∈ s.machine.stack, slot.detail = .uniform) := by
  intro count text number m s
  have hm : m.Accounts := Machine.Reached.fresh.accounts
  have hoperands : s.operands = number :: List.replicate (Scalar.toIndex count) text := by
    refine (hm.operands_putAll _).trans ?_
    rw [List.reverse_append, List.reverse_replicate]
    exact List.append_nil _
  clear_value s
  obtain ⟨slot, rest, hs, hslot, hrest⟩ := List.map_eq_cons_iff.mp hoperands
  have hlength : rest.length = Scalar.toIndex count := by
    rw [← List.length_map, hrest, List.length_replicate]
  have hcount : s.count = rest.length := by
    unfold Session.count
    rw [hs, hlength]
    dsimp only
    rw [hslot]
    rfl
  have huniform : ∀ a ∈ rest, a.detail = .uniform := fun a ha => by
    have hmem := List.mem_map_of_mem (f := s.machine.pools.value) ha
    rw [hrest] at hmem
    exact congrArg Value.detail (List.eq_of_mem_replicate hmem)
  obtain ⟨s', a, hok, hstack, ha⟩ :=
    Exec.dispatch_concat ⟨"concat", .string .concat, 0, []⟩ rfl hs (by rw [hslot]) hcount.le
  rw [hcount, List.drop_length] at hstack
  rw [hcount, List.take_length] at ha
  refine ⟨s', a, hok, hstack, fun hiff => ?_⟩
  have hau : a.detail = .uniform := by
    rw [ha]
    unfold resultDetail
    rw [Detail.joinAll_eq_uniform_iff]
    simpa using huniform
  have hslotu : slot.detail = .uniform := hiff.mp hau slot (by rw [hs]; exact List.mem_cons_self)
  have hvaries : slot.detail = .varying := congrArg Value.detail hslot
  rw [hvaries] at hslotu
  cases hslotu

end Session

end ShadingMachine
