import ShadingMachine.Proofs.Grid.Instruction
import ShadingMachine.Proofs.Lockstep.Operands
import ShadingMachine.Proofs.Lockstep.Pointwise

/-! The opcodes that compute a result point by point from their operands: those with a rule, the
splines, turning a normal, joining strings and formats. Sessions whose operands agree at the active
points stay in lockstep, and the results agree there. -/
namespace ShadingMachine

namespace Detail

theorem joinAll_eq_uniform_iff {ds : List Detail} :
    joinAll ds = .uniform ↔ ∀ d ∈ ds, d = .uniform := by
  refine ⟨uniform_of_joinAll, fun h => ?_⟩
  have hreplicate : ds = List.replicate ds.length .uniform := List.eq_replicate_iff.mpr ⟨rfl, h⟩
  rw [hreplicate]
  unfold joinAll
  induction ds.length with
  | zero => rfl
  | succ k ih => rw [List.replicate_succ, List.foldl_cons]; exact ih

end Detail

namespace Opcode

/-- The opcodes that compute a result point by point from their operands alone, but for the
reference that a normal is turned by. -/
def isComputation : Opcode → Bool
  | math _ | geometry _ | string .concat | string .format => true
  | code => code.rule?.isSome

/-- Whether the number of operands is an operand itself, on top of them. -/
def takesCount : Opcode → Bool
  | math f => f.rule?.isNone
  | string .concat | string .format => true
  | _ => false

/-- The number of operands beside the count. -/
def arity (code : Opcode) (count : Nat) : Nat :=
  match code.rule?, code with
  | some r, _ => r.arity
  | none, geometry _ => 2
  | none, string .concat => count
  | none, _ => count + 1

theorem isComputation_of_rule {code : Opcode} {r : Rule} (h : code.rule? = some r) :
    code.isComputation = true := by
  cases code with
  | string f => cases h
  | math f | geometry f => rfl
  | _ => simp [isComputation, h]

theorem takesCount_of_rule {code : Opcode} {r : Rule} (h : code.rule? = some r) :
    code.takesCount = false := by
  cases code with
  | math f => simp [takesCount, show f.rule? = some r from h]
  | string f => cases h
  | _ => rfl

end Opcode

namespace Session

variable {ε : Type}

/-- The stack under the count, if there is one. -/
def underCount (s : Session ε) (code : Opcode) : List Slot :=
  if code.takesCount then s.machine.stack.tail else s.machine.stack

/-- The operands that an elementwise opcode takes, the count apart. -/
def inputs (s : Session ε) (code : Opcode) : List Slot :=
  (s.underCount code).take (code.arity s.count)

/-- What is left of the stack under them. -/
def underInputs (s : Session ε) (code : Opcode) : List Slot :=
  (s.underCount code).drop (code.arity s.count)

/-- What an elementwise opcode reads beside its operands: a normal is turned by the geometric
normal. -/
def references [Environment ε] (s : Session ε) : Opcode → List Value
  | .geometry .faceForward =>
    ((Environment.graphics? s.host.env .geometricNormal).map (·.toValue)).toList
  | _ => []

/-- The points at which an instruction works. -/
def Active (s : Session ε) (i : Nat) : Prop := i ∈ s.machine.mask.ones ∧ i < s.machine.gridSize

instance (s : Session ε) (i : Nat) : Decidable (s.Active i) := inferInstanceAs (Decidable (_ ∧ _))

theorem SameFrame.active {s s' : Session ε} (h : SameFrame s s') : s'.Active = s.Active := by
  unfold Active
  rw [h.mask, h.gridSize]

/-- The detail of a result that is computed from slots of the stack and from values of those
details. -/
def resultDetail (more : List Value) (slots : List Slot) : Detail :=
  .joinAll (more.map (·.detail) ++ slots.reverse.map (·.detail))

end Session

namespace Exec

open Session

variable {ε : Type} {D : Detail → Detail → Prop} {V : Value → Prop} {K : Known}
  {hand hand' : List Slot} {s t : Session ε}

/-- A result that is computed point by point, from the slots in hand and values that both sessions
have. -/
theorem paired_produceAs_pointwise (hD : Detail.Allows D) (h : InStep D V K hand hand' s t)
    {type : ValueType} {arity : Nat} {fill : List Value → Value → Mask → Except ExecError Value}
    (F : PointwiseFilling arity type fill) (more : List Value)
    (harity : hand.length + more.length = arity)
    (hknown : ∀ a ∈ hand, ∀ i, s.Active i → K a i) {detail detail' : Detail}
    (hdetail : detail = .joinAll (more.map (·.detail) ++ hand.map (·.detail)))
    (hdetail' : detail' = .joinAll (more.map (·.detail) ++ hand'.map (·.detail))) :
    Paired
      (produceAs type detail hand fun args out mask => return fill (args ++ more) out mask) s
      (produceAs type detail' hand' fun args out mask => return fill (args ++ more) out mask) t
      fun _ s' _ t' =>
        Pushed D V K s.Active detail detail' s.machine.stack t.machine.stack s' t' := by
  refine paired_produceAs h fun out out' hout hout' htype htype' hd hd' => ⟨?_, rfl⟩
  have hmore : List.Forall₂ (Value.Agrees D s.Active) more more :=
    List.forall₂_same.mpr fun v _ => .refl hD _ v
  have hallows : D detail detail' := by
    rw [hdetail, hdetail']
    refine hD.joinAll (List.rel_append (List.forall₂_same.mpr fun d _ => hD.refl d) h.details)
  have hargs := List.rel_append (h.operands hknown) hmore
  have huniform {p : Pools} {slots : List Slot}
      (hj : Detail.joinAll (more.map (·.detail) ++ slots.map (·.detail)) = .uniform) :
      ∀ v ∈ slots.map p.value ++ more, v.detail = .uniform := by
    have hall := Detail.uniform_of_joinAll hj
    intro v hv
    rcases List.mem_append.mp hv with hv | hv
    · obtain ⟨slot, hslot, rfl⟩ := List.mem_map.mp hv
      exact hall _ (List.mem_append_right _ (List.mem_map_of_mem hslot))
    · exact hall _ (List.mem_append_left _ (List.mem_map_of_mem hv))
  exact F.agrees hD s.machine.mask hargs (by simpa using harity) (fun i hi hn => ⟨hi, hn⟩) hout hout'
    htype htype' (by rw [hd, hd']; exact hallows)
    (fun hu => huniform (hdetail ▸ hd ▸ hu)) (fun hu => huniform (hdetail' ▸ hd' ▸ hu))

variable (hD : Detail.Allows D) (h : InStep D V K [] [] s t) (i : Instruction)
include hD h

theorem paired_applyRule (r : Rule)
    (hknown : ∀ a ∈ s.machine.stack.take r.arity, ∀ k, s.Active k → K a k) :
    Paired (applyRule i r) s (applyRule i r) t fun _ s' _ t' =>
      Pushed D V K s.Active (resultDetail [] (s.machine.stack.take r.arity))
        (resultDetail [] (t.machine.stack.take r.arity)) (s.machine.stack.drop r.arity)
        (t.machine.stack.drop r.arity) s' t' := by
  unfold applyRule
  refine (paired_pop h i r.arity).bind fun slots s' slots' t' h' => ?_
  obtain ⟨⟨rfl, hlength, hs⟩, ⟨rfl, ht⟩, hframe, h'⟩ := h'
  dsimp only
  rw [← h'.types_eq, ← hs, ← ht, ← hframe.active]
  cases r.choose _ with
  | none => exact ⟨rfl, h'.release.sameOutside⟩
  | some f =>
    have hfill := paired_produceAs_pointwise hD h' (f.pointwiseFilling i.name r.arity) []
      (by simpa using hlength) (fun a ha => by
        rw [hframe.active]
        exact hknown a (List.mem_reverse.mp ha)) rfl rfl
    simp only [List.append_nil] at hfill
    exact hfill

omit hD in
/-- A count is taken, and as many operands and some more. -/
theorem paired_popCount_pop (hcount : ∀ slot ∈ s.machine.stack.head?, K slot 0) (more : Nat)
    {x : Nat → List Slot → Exec ε Unit} {Q : Session ε → Session ε → Prop}
    (hx : ∀ s' t', s'.machine.stack = s.machine.stack.tail.drop (s.count + more) →
      t'.machine.stack = t.machine.stack.tail.drop (s.count + more) → s.SameFrame s' →
      (s.machine.stack.tail.take (s.count + more)).reverse.length = s.count + more →
      InStep D V K (s.machine.stack.tail.take (s.count + more)).reverse
        (t.machine.stack.tail.take (s.count + more)).reverse s' t' →
      Paired (x s.count (s.machine.stack.tail.take (s.count + more)).reverse) s'
        (x s.count (t.machine.stack.tail.take (s.count + more)).reverse) t'
        fun _ s'' _ t'' => Q s'' t'') :
    Paired (do let n ← popCount i; let slots ← pop i (n + more); x n slots) s
      (do let n ← popCount i; let slots ← pop i (n + more); x n slots) t
      fun _ s' _ t' => Q s' t' := by
  refine (paired_popCount h i hcount).bind fun n s₁ n' t₁ h₁ => ?_
  obtain ⟨⟨rfl, rfl⟩, ⟨hs₁, ht₁⟩, hframe₁, h₁⟩ := h₁
  refine (paired_pop h₁ i _).bind fun slots s₂ slots' t₂ h₂ => ?_
  obtain ⟨⟨hslots, hlength, hs₂⟩, ⟨hslots', ht₂⟩, hframe₂, h₂⟩ := h₂
  rw [hs₁] at hslots hs₂
  rw [ht₁] at hslots' ht₂
  subst hslots hslots'
  exact hx s₂ t₂ hs₂ ht₂ (hframe₁.trans hframe₂) hlength h₂

/-- A count is taken, as many operands and some more, and a result is computed from them. -/
theorem paired_counted (hcount : ∀ slot ∈ s.machine.stack.head?, K slot 0) (more : Nat)
    (hknown : ∀ a ∈ s.machine.stack.tail.take (s.count + more), ∀ k, s.Active k → K a k)
    {type : ValueType} {fill : Nat → List Value → Value → Mask → Except ExecError Value}
    (F : ∀ n, PointwiseFilling (n + more) type (fill n)) :
    Paired (do let n ← popCount i; let slots ← pop i (n + more)
               produce type slots fun args out mask => return fill n args out mask) s
      (do let n ← popCount i; let slots ← pop i (n + more)
          produce type slots fun args out mask => return fill n args out mask) t
      fun _ s' _ t' =>
      Pushed D V K s.Active (resultDetail [] (s.machine.stack.tail.take (s.count + more)))
        (resultDetail [] (t.machine.stack.tail.take (s.count + more)))
        (s.machine.stack.tail.drop (s.count + more)) (t.machine.stack.tail.drop (s.count + more))
        s' t' := by
  refine paired_popCount_pop h i hcount more fun s' t' hs ht hframe hlength h' => ?_
  rw [← hs, ← ht, ← hframe.active]
  have hfill := paired_produceAs_pointwise hD h' (F s.count) [] (by simpa using hlength)
    (fun a ha => by
      rw [hframe.active]
      exact hknown a (List.mem_reverse.mp ha)) rfl rfl
  simp only [List.append_nil] at hfill
  exact hfill

theorem paired_spline {f : MathFunction} (hf : f.rule? = none)
    (hcount : ∀ slot ∈ s.machine.stack.head?, K slot 0)
    (hknown : ∀ a ∈ s.machine.stack.tail.take (s.count + 1), ∀ k, s.Active k → K a k) :
    Paired (spline i f) s (spline i f) t fun _ s' _ t' =>
      Pushed D V K s.Active (resultDetail [] (s.machine.stack.tail.take (s.count + 1)))
        (resultDetail [] (t.machine.stack.tail.take (s.count + 1)))
        (s.machine.stack.tail.drop (s.count + 1)) (t.machine.stack.tail.drop (s.count + 1)) s' t' := by
  unfold spline
  refine paired_popCount_pop h i hcount 1 fun s' t' hs ht hframe hlength h' => ?_
  obtain ⟨e, he⟩ : ∃ e, f.spline? s.count = some e := by
    cases f <;> first | exact ⟨_, rfl⟩ | cases hf
  have hrest {s₁ t₁ : Session ε} (hs₁ : s₁.machine = s'.machine) (ht₁ : t₁.machine = t'.machine)
      (h₁ : InStep D V K (s.machine.stack.tail.take (s.count + 1)).reverse
        (t.machine.stack.tail.take (s.count + 1)).reverse s₁ t₁) :
      Paired (produce e.type (s.machine.stack.tail.take (s.count + 1)).reverse
          fun args out mask => return e.fill i.name args out mask) s₁
        (produce e.type (t.machine.stack.tail.take (s.count + 1)).reverse
          fun args out mask => return e.fill i.name args out mask) t₁
        fun _ s'' _ t'' =>
        Pushed D V K s.Active (resultDetail [] (s.machine.stack.tail.take (s.count + 1)))
          (resultDetail [] (t.machine.stack.tail.take (s.count + 1)))
          (s.machine.stack.tail.drop (s.count + 1)) (t.machine.stack.tail.drop (s.count + 1))
          s'' t'' := by
    have hactive : s₁.Active = s.Active := by
      rw [← hframe.active]
      unfold Active
      rw [hs₁]
    rw [← hs, ← ht, ← hactive, ← hs₁, ← ht₁]
    have hfill := paired_produceAs_pointwise hD h₁ (e.pointwiseFilling i.name (s.count + 1)) []
      (by simpa using hlength) (fun a ha => by
        rw [hactive]
        exact hknown a (List.mem_reverse.mp ha)) rfl rfl
    simp only [List.append_nil] at hfill
    exact hfill
  dsimp only
  rw [he]
  split
  · refine (paired_serve h' (note .warn _)).bind fun _ s₁ _ t₁ h₁ => ?_
    exact hrest h₁.2.1 h₁.2.2.1 h₁.2.2.2
  · exact hrest rfl rfl h'

theorem paired_faceForward
    (hknown : ∀ a ∈ s.machine.stack.take 2, ∀ k, s.Active k → K a k) [Environment ε] :
    Paired (faceForward i) s (faceForward i) t fun _ s' _ t' =>
      ∃ reference, Environment.graphics? s.host.env .geometricNormal = some reference ∧
        Pushed D V K s.Active (resultDetail [reference.toValue] (s.machine.stack.take 2))
          (resultDetail [reference.toValue] (t.machine.stack.take 2)) (s.machine.stack.drop 2)
          (t.machine.stack.drop 2) s' t' := by
  unfold faceForward
  refine (paired_pop h i 2).bind fun slots s' slots' t' h' => ?_
  obtain ⟨⟨rfl, hlength, hs⟩, ⟨rfl, ht⟩, hframe, h'⟩ := h'
  rw [paired_environment_bind, h'.host, hframe.host]
  cases hg : Environment.graphics? s.host.env .geometricNormal with
  | none => exact ⟨rfl, h'.release.sameOutside⟩
  | some reference =>
    dsimp only
    rw [← h'.types_eq, ← hs, ← ht, ← hframe.active]
    obtain ⟨f, hf⟩ : ∃ f, Geometry.facing.choose
        ((s.machine.stack.take 2).reverse.map (·.type)) = some f := by
      obtain ⟨slot, rest, hcons⟩ := List.exists_cons_of_length_eq_add_one hlength
      rw [hcons]
      exact ⟨_, rfl⟩
    rw [hf]
    refine (paired_produceAs_pointwise hD h' (f.pointwiseFilling i.name 3) [reference.toValue]
      (by simpa using hlength) (fun a ha => ?_) rfl rfl).imp fun _ _ _ _ hp => ⟨_, rfl, hp⟩
    rw [hframe.active]
    exact hknown a (List.mem_reverse.mp ha)

theorem paired_concatStrings (hcount : ∀ slot ∈ s.machine.stack.head?, K slot 0)
    (hknown : ∀ a ∈ s.machine.stack.tail.take s.count, ∀ k, s.Active k → K a k) :
    Paired (concatStrings i) s (concatStrings i) t fun _ s' _ t' =>
      Pushed D V K s.Active (resultDetail [] (s.machine.stack.tail.take s.count))
        (resultDetail [] (t.machine.stack.tail.take s.count))
        (s.machine.stack.tail.drop s.count) (t.machine.stack.tail.drop s.count) s' t' :=
  paired_counted hD h i hcount 0 hknown fun n => joinFilling n

theorem paired_formatString (hcount : ∀ slot ∈ s.machine.stack.head?, K slot 0)
    (hknown : ∀ a ∈ s.machine.stack.tail.take (s.count + 1), ∀ k, s.Active k → K a k) :
    Paired (formatString i) s (formatString i) t fun _ s' _ t' =>
      Pushed D V K s.Active (resultDetail [] (s.machine.stack.tail.take (s.count + 1)))
        (resultDetail [] (t.machine.stack.tail.take (s.count + 1)))
        (s.machine.stack.tail.drop (s.count + 1)) (t.machine.stack.tail.drop (s.count + 1)) s' t' := by
  rw [formatString_eq]
  exact paired_counted hD h i hcount 1 hknown formatFilling

omit hD i in
theorem count_eq (hcount : ∀ slot ∈ s.machine.stack.head?, K slot 0) : t.count = s.count := by
  have hstack := h.stack
  unfold count
  generalize s.machine.stack = stack at hstack hcount
  generalize t.machine.stack = stack' at hstack
  cases hstack with
  | nil => rfl
  | cons hab _ => exact congrArg Scalar.toIndex (hab.value.get 0 (hcount _ rfl) .float).symm

/-- Sessions in lockstep stay so over an elementwise opcode, if the count is known where it is read
and the operands at the active points: the results are known at the active points. -/
theorem paired_elementwise [Environment ε] (hcode : i.code.isComputation = true)
    (hcount : i.code.takesCount = true → ∀ slot ∈ s.machine.stack.head?, K slot 0)
    (hknown : ∀ a ∈ s.inputs i.code, ∀ k, s.Active k → K a k) :
    Paired (dispatch i) s (dispatch i) t fun r s' r' t' => r = none ∧ r' = none ∧
      Pushed D V K s.Active (resultDetail (s.references i.code) (s.inputs i.code))
        (resultDetail (t.references i.code) (t.inputs i.code)) (s.underInputs i.code)
        (t.underInputs i.code) s' t' := by
  have hgo {x : Exec ε Unit} {Q : Session ε → Session ε → Prop}
      (hx : Paired x s x t fun _ s' _ t' => Q s' t') :
      Paired (do x; return (none : Option Nat)) s (do x; return (none : Option Nat)) t
        fun r s' r' t' => r = none ∧ r' = none ∧ Q s' t' :=
    hx.bind fun _ _ _ _ hq => ⟨rfl, rfl, hq⟩
  have htake (hc : i.code.takesCount = true) : t.count = s.count := count_eq h (hcount hc)
  unfold dispatch
  cases hrule : i.code.rule? with
  | some r =>
    have hno := Opcode.takesCount_of_rule hrule
    have hnone (u : Session ε) : u.references i.code = [] := by
      cases hc : i.code with
      | geometry f =>
        rw [hc] at hrule
        cases f <;> first | rfl | cases hrule
      | _ => rfl
    rw [hnone, hnone]
    simp only [inputs, underInputs, underCount, hno, Opcode.arity, hrule, Bool.false_eq_true,
      if_false] at hknown ⊢
    exact hgo (paired_applyRule hD h i r hknown)
  | none =>
    dsimp only
    cases hc : i.code with
    | math f =>
      rw [hc] at hrule hcount hknown htake
      have hyes : (Opcode.math f).takesCount = true := by
        show f.rule?.isNone = true
        rw [show f.rule? = none from hrule]
        rfl
      simp only [inputs, underInputs, underCount, hyes, Opcode.arity, hrule, if_true,
        htake hyes] at hknown ⊢
      exact hgo (paired_spline hD h i hrule (hcount hyes) hknown)
    | geometry f =>
      rw [hc] at hrule hknown
      cases f <;> try cases hrule
      refine hgo ((paired_faceForward hD h i hknown).imp fun _ _ _ _ hp => ?_)
      obtain ⟨reference, hg, hp⟩ := hp
      simp only [references, h.host, hg]
      exact hp
    | string f =>
      rw [hc] at hcode hcount hknown htake
      cases f with
      | concat =>
        simp only [inputs, underInputs, underCount, Opcode.takesCount, Opcode.arity, Opcode.rule?,
          if_true, htake rfl] at hknown ⊢
        exact hgo (paired_concatStrings hD h i (hcount rfl) hknown)
      | format =>
        simp only [inputs, underInputs, underCount, Opcode.takesCount, Opcode.arity, Opcode.rule?,
          if_true, htake rfl] at hknown ⊢
        exact hgo (paired_formatString hD h i (hcount rfl) hknown)
      | printf | matchPattern => cases hcode
    | merge | buildTriple | buildColor | buildMatrix | ofFloat | tripleToColor | colorToTriple
    | arithmetic | dot | cross | negate | compare | and | or | not =>
      rw [hc] at hrule
      cases hrule
    | nop | dup | drop | debugBreak | pushFloat | pushString | pushPoint | pushVariable
    | pushElement | popVariable | popElement | flow | service | illumination =>
      rw [hc] at hcode
      cases hcode

end Exec

end ShadingMachine
