import ShadingMachine.Machine.Service
import ShadingMachine.Machine.Strings
import ShadingMachine.Proofs.Lockstep.Access
import ShadingMachine.Proofs.Lockstep.Elementwise

/-! Results that are filled with the help of the environment. Two ways to fill a new slot are alike if
the results agree at the running points, whatever the slot held before, and the environment is left
the same; an instruction that takes operands and fills a result in ways that are alike keeps two
sessions in lockstep. Printing and matching are of this kind. -/
namespace ShadingMachine

/-- A new slot of a type and detail on a grid of `n` points holds this, whatever else. -/
structure Value.IsNew (n : Nat) (type : ValueType) (detail : Detail) (v : Value) : Prop
    extends v.IsShaped n where
  type : v.type = type
  detail : v.detail = detail

/-- Operands that agree at the running points have the same elements where a result is computed. -/
theorem Value.Agrees.sameElement {mask : Mask} {detail : Detail} {vs ws : List Value}
    (h : List.Forall₂ (Value.Agrees Eq (· ∈ mask.ones)) vs ws)
    (hu : detail = .uniform → ∀ v ∈ vs, v.detail = .uniform) {k : Nat}
    (hk : k ∈ detail.points mask) : List.Forall₂ (Value.SameElement k k) vs ws := by
  induction h with
  | nil => exact .nil
  | cons hv _ ih =>
    exact .cons ⟨hv.type, hv.storage,
        hv.get_points (fun _ hi => hi) (fun hd => hu hd _ List.mem_cons_self) hk⟩
      (ih fun hd v hmem => hu hd v (List.mem_cons_of_mem _ hmem))

/-- Operands, the top one first, that agree each at the points given for it, and fit the grid. -/
inductive Value.AgreeAt (V : Value → Prop) : List (List Nat) → List Value → List Value → Prop
  | nil : AgreeAt V [] [] []
  | cons {points : List Nat} {more : List (List Nat)} {v w : Value} {vs ws : List Value} :
    v.Agrees Eq (· ∈ points) w → V v → V w → AgreeAt V more vs ws →
    AgreeAt V (points :: more) (v :: vs) (w :: ws)

variable {ε : Type}

/-- Two results with what they leave behind, filled from slots that held `out` and `out'`: they agree
at the points of `P`. -/
structure Value.FilledAlike {σ : Type} (P : Nat → Prop) (out out' : Value) (r r' : Value × σ) :
    Prop where
  agrees : r.1.Agrees Eq P r'.1
  kind : out.SameKind r.1
  kind' : out'.SameKind r'.1
  left : r'.2 = r.2

/-- Two ways to fill new slots of one type and detail are alike, in one environment. -/
def FillsAlike (n : Nat) (mask : Mask) (type : ValueType) (detail : Detail) (h : Host ε)
    (x y : Value → Serving ε Value) : Prop :=
  ∀ out out' : Value, out.IsNew n type detail → out'.IsNew n type detail →
    Value.FilledAlike (· ∈ mask.ones) out out' ((x out).run h) ((y out').run h)

section FillsAlike

variable {n : Nat} {mask : Mask} {type : ValueType} {detail : Detail} {h : Host ε}

/-- What is done before is the same on both sides. -/
theorem FillsAlike.bind {α : Type} {a b : Serving ε α} {x y : α → Value → Serving ε Value}
    (hab : b.run h = a.run h)
    (hxy : FillsAlike n mask type detail (a.run h).2 (x (a.run h).1) (y (a.run h).1)) :
    FillsAlike n mask type detail h (fun out => a >>= (x · out)) (fun out => b >>= (y · out)) := by
  intro out out' hout hout'
  have hr := hxy out out' hout hout'
  show Value.FilledAlike (· ∈ mask.ones) out out' ((x (a.run h).1 out).run (a.run h).2)
    ((y (b.run h).1 out').run (b.run h).2)
  rw [hab]
  exact hr

/-- The environment is read, and answers without being changed. -/
theorem FillsAlike.asking {x y : ε → Value → Value}
    (hxy : FillsAlike n mask type detail h (fun out => return x h.env out)
      (fun out => return y h.env out)) :
    FillsAlike n mask type detail h (fun out => do return x (← get).env out)
      (fun out => do return y (← get).env out) := hxy

theorem fillsAlike_write (hmask : ∀ i ∈ mask.ones, i < n) {s : Storage} (hs : type.storage = s)
    {f g : Nat → s.Elem} (hfg : ∀ i ∈ detail.points mask, f i = g i) :
    FillsAlike n mask type detail h (fun out => return out.write s mask f) fun out =>
      return out.write s mask g := by
  intro out out' hout hout'
  have htype := hout.type.trans hout'.type.symm
  have hdetail := hout.detail.trans hout'.detail.symm
  exact ⟨hout.agrees_fill hout'.toIsShaped htype hdetail hmask (hout.type ▸ hs)
    (hout.detail ▸ hfg), out.sameKind_write .., out'.sameKind_write .., rfl⟩

/-- The answers come to something else. -/
theorem FillsAlike.of_eq {x y f g : Value → Value}
    (hfg : FillsAlike n mask type detail h (fun out => return f out) (fun out => return g out))
    (hx : ∀ out : Value, out.data.storage = type.storage → x out = f out)
    (hy : ∀ out : Value, out.data.storage = type.storage → y out = g out) :
    FillsAlike n mask type detail h (fun out => return x out) (fun out => return y out) := by
  intro out out' hout hout'
  show Value.FilledAlike (· ∈ mask.ones) out out' (x out, h) (y out', h)
  rw [hx out (hout.storage.trans (congrArg _ hout.type)),
    hy out' (hout'.storage.trans (congrArg _ hout'.type))]
  exact hfg out out' hout hout'

theorem fillsAlike_clear (hmask : ∀ i ∈ mask.ones, i < n) :
    FillsAlike n mask type detail h (fun out => return out.clear mask) fun out =>
      return out.clear mask := by
  have hclear (out : Value) (hout : out.data.storage = type.storage) :
      out.clear mask = out.write type.storage mask fun _ => type.storage.zero := by
    unfold Value.clear
    rw [hout]
  exact (fillsAlike_write hmask rfl fun _ _ => rfl).of_eq hclear hclear

end FillsAlike

namespace Session

variable {V : Value → Prop} {K L : Known} {hand hand' : List Slot} {s t : Session ε}

/-- Of a uniform slot everything is known. -/
theorem InStep.uniform (h : InStep Eq V K hand hand' s t)
    (hL : ∀ a i, L a i → a.detail = .uniform ∨ K a i) : InStep Eq V L hand hand' s t := by
  have hslots {as bs : List Slot}
      (has : List.Forall₂ (SlotsAgree Eq V K s.machine.pools t.machine.pools) as bs) :
      List.Forall₂ (SlotsAgree Eq V L s.machine.pools t.machine.pools) as bs := by
    refine has.imp fun a b hab => ⟨?_, hab.fits, hab.fits'⟩
    cases hd : a.detail with
    | uniform =>
      rw [← hab.value.eq_of_detail hd]
      exact .refl Detail.allows_eq _ _
    | varying =>
      refine hab.value.imp fun i hi => (hL a i hi).resolve_left fun hu => ?_
      cases hd.symm.trans hu
  exact { h with hand := hslots h.hand, stack := hslots h.stack }

/-- Results have been put on both stacks, and are known at the points of `P`. -/
def Yields (V : Value → Prop) (K : Known) (P : Nat → Prop) (s t : Session ε) : Prop :=
  ∃ a rest, s.machine.stack = a :: rest ∧ InStep Eq V (Function.update K a P) [] [] s t

theorem Pushed.yields {P : Nat → Prop} {detail detail' : Detail} {rest rest' : List Slot}
    (h : Pushed Eq V K P detail detail' rest rest' s t) : Yields V K P s t := by
  obtain ⟨a, b, hs, -, -, -, hstep⟩ := h
  exact ⟨a, rest, hs, hstep⟩

theorem Yields.imp {P Q : Nat → Prop} (h : Yields V K P s t) (hQ : ∀ i, Q i → P i) :
    Yields V K Q s t := by
  obtain ⟨a, rest, hs, hstep⟩ := h
  refine ⟨a, rest, hs, hstep.weaken fun slot i hi => ?_⟩
  by_cases hslot : slot = a
  · subst hslot
    rw [Function.update_self] at hi ⊢
    exact hQ i hi
  · rwa [Function.update_of_ne hslot] at hi ⊢

theorem reads_replicate {stack : List Slot} {k : Nat} {points : List Nat}
    (h : ∀ p ∈ stack.zip (List.replicate k points), ∀ i ∈ p.2, K p.1 i) :
    ∀ a ∈ stack.take k, ∀ i ∈ points, K a i := by
  induction stack generalizing k with
  | nil => simp
  | cons a stack ih =>
    cases k with
    | zero => simp
    | succ k =>
      rw [List.replicate_succ, List.zip_cons_cons, List.forall_mem_cons] at h
      rw [List.take_succ_cons, List.forall_mem_cons]
      exact ⟨h.1, ih h.2⟩

/-- A count is read at the first point, and the operands under it at the points given. -/
theorem Reads.counted {k : Nat} {points : List Nat}
    (h : s.Reads K ([0] :: List.replicate k points)) :
    (∀ slot ∈ s.machine.stack.head?, K slot 0) ∧
      ∀ a ∈ s.machine.stack.tail.take k, ∀ i ∈ points, K a i := by
  unfold Reads at h
  cases hs : s.machine.stack with
  | nil => simp
  | cons a rest =>
    rw [hs, List.zip_cons_cons, List.forall_mem_cons] at h
    refine ⟨fun slot hslot => ?_, reads_replicate h.2⟩
    cases hslot
    exact h.1 0 (List.mem_singleton_self 0)

end Session

namespace Exec

open Session

variable {V : Value → Prop} {K : Known} {hand hand' : List Slot} {s t : Session ε}

theorem paired_produceAs_asked (h : InStep Eq V K hand hand' s t) {type : ValueType}
    {detail : Detail} {ask : List Value → Value → Mask → Serving ε Value}
    (hask : FillsAlike s.machine.gridSize s.machine.mask type detail s.host
      (fun out => ask (hand.map s.machine.pools.value) out s.machine.mask)
      fun out => ask (hand'.map t.machine.pools.value) out s.machine.mask) :
    Paired (produceAs type detail hand (asked ask)) s (produceAs type detail hand' (asked ask)) t
      fun _ s' _ t' => Yields V K (· ∈ s.machine.mask.ones) s' t' := by
  refine (paired_produceAs h (P := (· ∈ s.machine.mask.ones))
    fun out out' hout hout' ht ht' hd hd' => ?_).imp fun _ _ _ _ hp => hp.yields
  have hr := hask out out' ⟨hout, ht, hd⟩ ⟨hout', ht', hd'⟩
  exact ⟨.ok ⟨hr.agrees, hr.kind, hr.kind'⟩, hr.left⟩

/-- The operands that are taken agree where they are read. -/
theorem paired_popRead (h : InStep Eq V K [] [] s t) (i : Instruction) {points : List (List Nat)}
    (hreads : s.Reads K points) :
    Paired (pop i points.length) s (pop i points.length) t fun slots s' slots' t' =>
      Value.AgreeAt V points (slots.reverse.map s'.machine.pools.value)
        (slots'.reverse.map t'.machine.pools.value) ∧
      s.SameFrame s' ∧ InStep Eq V K slots slots' s' t' := by
  refine (paired_pop h i points.length).imp fun slots s' slots' t' h' => ?_
  obtain ⟨⟨hslots, hlength, -⟩, -, hframe, h'⟩ := h'
  refine ⟨?_, hframe, h'⟩
  have hlen : slots.reverse.length = points.length := by rw [List.length_reverse, hlength]
  have hread : ∀ p ∈ slots.reverse.zip points, ∀ k ∈ p.2, K p.1 k := fun p hp => hreads p (by
    rw [stack_eq_of_take hslots, ← List.append_nil points, List.zip_append hlen]
    exact List.mem_append_left _ hp)
  have hhand := List.rel_reverse h'.hand
  generalize slots.reverse = as at hhand hread hlen ⊢
  generalize slots'.reverse = bs at hhand ⊢
  clear hreads hslots hlength
  induction hhand generalizing points with
  | nil =>
    obtain rfl := List.length_eq_zero_iff.mp hlen.symm
    exact .nil
  | cons hab _ ih =>
    cases points with
    | nil => cases hlen
    | cons ps points =>
      rw [List.zip_cons_cons, List.forall_mem_cons] at hread
      exact .cons (hab.value.imp hread.1) hab.fits hab.fits' (ih hread.2 (Nat.succ.inj hlen))

/-- Operands are taken and a result is filled that is known at the running points. -/
theorem paired_pop_asked (h : InStep Eq V K [] [] s t) (i : Instruction)
    {points : List (List Nat)} (hreads : s.Reads K points) (type : ValueType)
    (detail : List Detail → Detail) (ask : List Value → Value → Mask → Serving ε Value)
    (hask : ∀ vs ws, Value.AgreeAt V points vs ws →
      FillsAlike s.machine.gridSize s.machine.mask type (detail (vs.reverse.map (·.detail))) s.host
        (fun out => ask vs.reverse out s.machine.mask) fun out => ask ws.reverse out s.machine.mask) :
    Paired
      (do let slots ← pop i points.length
          produceAs type (detail (slots.map (·.detail))) slots (asked ask)) s
      (do let slots ← pop i points.length
          produceAs type (detail (slots.map (·.detail))) slots (asked ask)) t
      fun _ s' _ t' => Yields V K (· ∈ s.machine.mask.ones) s' t' := by
  refine (paired_popRead h i hreads).bind fun slots s' slots' t' h' => ?_
  obtain ⟨hagree, hframe, h'⟩ := h'
  have hdetails : slots'.map (·.detail) = slots.map (·.detail) := by
    have hd := h'.details
    rw [List.forall₂_eq_eq_eq] at hd
    exact hd.symm
  have hfill := hask _ _ hagree
  have hpushed (p : Pools) (as : List Slot) : (as.reverse.map p.value).reverse = as.map p.value := by
    rw [List.map_reverse, List.reverse_reverse]
  rw [hpushed, hpushed, List.map_map, ← hframe.mask, ← hframe.gridSize, ← hframe.host] at hfill
  rw [hdetails, ← hframe.mask]
  exact paired_produceAs_asked h' hfill

/-- The same things are asked on both sides, one after the other. -/
theorem paired_forIn_serve {α : Type} (h : InStep Eq V K hand hand' s t) {xs : List α}
    {f g : α → Serving ε Unit} (hfg : ∀ x ∈ xs, f x = g x) :
    Paired (forIn xs PUnit.unit fun x _ => do serve (f x); pure (ForInStep.yield PUnit.unit)) s
      (forIn xs PUnit.unit fun x _ => do serve (g x); pure (ForInStep.yield PUnit.unit)) t
      fun _ s' _ t' => InStep Eq V K hand hand' s' t' := by
  induction xs generalizing s t with
  | nil => exact h
  | cons x xs ih =>
    obtain ⟨hx, hxs⟩ := List.forall_mem_cons.mp hfg
    rw [List.forIn_cons, List.forIn_cons, hx]
    refine Paired.bind ((paired_serve h (g x)).bind fun _ s' _ t' h' => ?_) fun _ _ _ _ h' => h'
    exact ih h'.2.2.2 hxs

variable [Environment ε]

/-- What is printed is read at the running points, and at the first one if nothing varies. -/
theorem paired_printFormat (h : InStep Eq V K [] [] s t) (i : Instruction)
    (hreads : s.Reads K ([0] :: List.replicate (s.count + 1) s.machine.mask.ones)) :
    Paired (printFormat i) s (printFormat i) t fun _ s' _ t' => InStep Eq V K [] [] s' t' := by
  obtain ⟨hcount, hknown⟩ := hreads.counted
  unfold printFormat
  refine paired_popCount_pop h i hcount 1 fun s' t' _ _ hframe hlength h' => ?_
  have hdetails := h'.details
  have hknown' : ∀ a ∈ (s.machine.stack.tail.take (s.count + 1)).reverse,
      ∀ k ∈ s.machine.mask.ones, K a k := fun a ha => hknown a (List.mem_reverse.mp ha)
  have hargs := h'.operands (P := (· ∈ s.machine.mask.ones)) hknown'
  generalize (s.machine.stack.tail.take (s.count + 1)).reverse = slots at *
  generalize (t.machine.stack.tail.take (s.count + 1)).reverse = slots' at *
  rw [List.forall₂_eq_eq_eq] at hdetails
  rw [paired_machine_bind, paired_values_bind, h'.mask, hframe.mask, ← hdetails]
  have hsame {k : Nat} (hk : k ∈ (Detail.joinAll (slots.map (·.detail))).points s.machine.mask) :=
    Value.Agrees.sameElement hargs (fun hu v hv => by
      obtain ⟨slot, hslot, rfl⟩ := List.mem_map.mp hv
      exact Detail.uniform_of_joinAll hu _ (List.mem_map_of_mem hslot)) hk
  generalize slots.map s'.machine.pools.value = args at hargs hsame ⊢
  generalize slots'.map t'.machine.pools.value = args' at hargs hsame ⊢
  cases hargs with
  | nil => exact h'.release
  | @cons format format' args args' _ _ =>
    refine (paired_forIn_serve h' fun k hk => ?_).bind fun _ _ _ _ h'' => h''.release
    obtain ⟨hformat, hrest⟩ := List.forall₂_cons.mp (hsame hk)
    rw [Format.write_congr hformat hrest]

/-- What is reported of the patterns at the points. -/
def complaintAt? (engine : Pattern.Engine) (pattern : Value) (points : List Nat) : Option String :=
  (points.map pattern.getString).findSome? engine.complaint?

/-- Makes the report, if there is one. -/
def reportIfAny (text? : Option String) : Serving ε Unit :=
  match text? with
  | some text => Environment.report text
  | none => return ()

/-- Whether the subject matches the pattern at a point. -/
def matchAt (engine : Pattern.Engine) (pattern subject : Value) (k : Nat) : Float32 :=
  Scalar.ofBool (engine.occurs (pattern.getString k) (subject.getString k))

theorem answerMatch_run (engine : Pattern.Engine) (pattern subject out : Value) (mask : Mask)
    (h : Host ε) : (answerMatch engine [pattern, subject] out mask).run h =
      (out.write .float mask (matchAt engine pattern subject), ((reportIfAny
        (complaintAt? engine pattern ((out.points mask).filter (· < out.size)))).run h).2) := by
  unfold answerMatch reportIfAny complaintAt?
  dsimp only
  generalize List.findSome? _ _ = text?
  cases text? <;> rfl

theorem paired_matchPattern (h : InStep Eq V K [] [] s t) (i : Instruction)
    (hmask : ∀ k ∈ s.machine.mask.ones, k < s.machine.gridSize)
    (hreads : s.Reads K [s.machine.mask.ones, s.machine.mask.ones]) :
    Paired (matchPattern i) s (matchPattern i) t fun _ s' _ t' =>
      Yields V K (· ∈ s.machine.mask.ones) s' t' := by
  unfold matchPattern
  rw [paired_machine_bind, h.config]
  generalize s.machine.config.patterns = engine
  refine paired_pop_asked h i hreads .float Detail.joinAll _ fun vs ws hvs => ?_
  rcases hvs with _ | @⟨_, _, subject, subject', _, _, hsubject, _, _, hvs⟩
  rcases hvs with _ | @⟨_, _, pattern, pattern', _, _, hpattern, _, _, hvs⟩
  rcases hvs with _ | _
  intro out out' hout hout'
  generalize hd : Detail.joinAll _ = detail at hout hout'
  have hu (hdetail : detail = .uniform) : subject.detail = .uniform ∧ pattern.detail = .uniform := by
    have hall := Detail.uniform_of_joinAll (hd.trans hdetail)
    exact ⟨hall _ (by simp), hall _ (by simp)⟩
  have hpattern' {k : Nat} (hk : k ∈ detail.points s.machine.mask) :
      pattern.getString k = pattern'.getString k :=
    hpattern.get_points (fun _ hi => hi) (fun hdetail => (hu hdetail).2) hk .string
  have hfound {k : Nat} (hk : k ∈ detail.points s.machine.mask) :
      matchAt engine pattern subject k = matchAt engine pattern' subject' k := by
    have hsubject' : subject.getString k = subject'.getString k :=
      hsubject.get_points (fun _ hi => hi) (fun hdetail => (hu hdetail).1) hk .string
    unfold matchAt
    rw [hpattern' hk, hsubject']
  have hpoints {v : Value} (hv : v.IsNew s.machine.gridSize .float detail) :
      (v.points s.machine.mask).filter (· < v.size) =
        (detail.points s.machine.mask).filter (· < detail.length s.machine.gridSize) := by
    rw [hv.size, ← hv.detail]
    rfl
  have hbad : complaintAt? engine pattern ((out.points s.machine.mask).filter (· < out.size)) =
      complaintAt? engine pattern' ((out'.points s.machine.mask).filter (· < out'.size)) := by
    unfold complaintAt?
    rw [hpoints hout, hpoints hout',
      List.map_congr_left fun k hk => hpattern' (List.mem_filter.mp hk).1]
  show Value.FilledAlike (· ∈ s.machine.mask.ones) out out'
    ((answerMatch engine [pattern, subject] out s.machine.mask).run s.host)
    ((answerMatch engine [pattern', subject'] out' s.machine.mask).run s.host)
  rw [answerMatch_run, answerMatch_run, hbad]
  exact fillsAlike_write hmask rfl (fun k hk => hfound hk) out out' hout hout'

end Exec

end ShadingMachine
