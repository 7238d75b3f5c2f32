import ShadingMachine.Proofs.Lockstep.Fillings

/-! What is asked of the grid, in two sessions in lockstep. Of every service it is said where it reads
its operands: most at the running points, names at the first point, derivatives at the neighbours,
and light where the variables of the light are written. If the operands are known there, the result
is known at the running points. -/
namespace ShadingMachine

namespace Service

/-- A map is looked up by name and channel, which come before the coordinates. -/
def lookUpReading (type : ValueType) (coordinates : Nat) : List (List Nat) :=
  List.replicate coordinates [] ++ [if type.storage = .color then [] else [0], [0]]

/-- The points at which a service reads its operands, the top one first. -/
def reading (g : Grid) (mask : Mask) : Service → List (List Nat)
  | .transform _ between | .transformColor between =>
    mask.ones :: List.replicate (if between then 2 else 1) [0]
  | .depth | .diffuse => [mask.ones]
  | .calculateNormal | .area => [g.resolution.reach [.alongU, .alongV] mask.ones]
  | .alongU _ => [g.resolution.reach [.alongU] mask.ones]
  | .alongV _ => [g.resolution.reach [.alongV] mask.ones]
  | .derivative _ => List.replicate 2 (g.resolution.reach [.alongU, .alongV] mask.ones)
  | .random _ | .ambient => []
  | .noise _ dimensions | .cellNoise _ dimensions =>
    List.replicate (if dimensions % 2 = 0 then 2 else 1) mask.ones
  | .specular | .phong => List.replicate 3 mask.ones
  | .texture type coordinates => lookUpReading type (if coordinates then 2 else 0)
  | .surroundings type => lookUpReading type 1
  | .shadow => lookUpReading .float 1
  | .trace => [[], []]
  | .attribute | .option => [[0]]

end Service

/-- The points at which an illumination reads its operands, the top one first. -/
def Illumination.reading (g : Grid) (mask : Mask) : Illumination → List (List Nat)
  | .start | .advance | .solarAll => []
  | .startCategory => [[0]]
  | .illuminance | .illuminate => [mask.ones, mask.ones, mask.ones ++ g.lightPoints mask]
  | .illuminanceCategory => [mask.ones, mask.ones, mask.ones ++ g.lightPoints mask, []]
  | .illuminateAll => [mask.ones ++ g.lightPoints mask]
  | .solar => [[], g.lightPoints mask]

namespace Value.AgreeAt

variable {V : Value → Prop} {points : List (List Nat)} {vs ws : List Value}

theorem forall₂ {k : Nat} {ps : List Nat} (h : AgreeAt V (List.replicate k ps) vs ws) :
    List.Forall₂ (Value.Agrees Eq (· ∈ ps)) vs ws := by
  generalize hpoints : List.replicate k ps = points at h
  induction h generalizing k with
  | nil => exact .nil
  | cons hv _ _ _ ih =>
    cases k with
    | zero => cases hpoints
    | succ k =>
      rw [List.replicate_succ, List.cons.injEq] at hpoints
      obtain ⟨rfl, hpoints⟩ := hpoints
      exact .cons hv (ih hpoints)

theorem of_append {more : List (List Nat)} (h : AgreeAt V (more ++ points) vs ws) :
    ∃ us vs' xs ws', vs = us ++ vs' ∧ ws = xs ++ ws' ∧ AgreeAt V points vs' ws' := by
  induction more generalizing vs ws with
  | nil => exact ⟨[], vs, [], ws, rfl, rfl, h⟩
  | cons _ more ih =>
    rcases h with _ | @⟨_, _, v, w, _, _, _, _, _, h⟩
    obtain ⟨us, vs', xs, ws', rfl, rfl, hrest⟩ := ih h
    exact ⟨v :: us, vs', w :: xs, ws', rfl, rfl, hrest⟩

end Value.AgreeAt

namespace Exec

open Session

variable {V : Value → Prop} {K : Known} {hand hand' : List Slot} {s t : Session Grid}

section Transforms

/-- Where to transform from and to is read at the first point. -/
theorem spaceNames_congr (origin : String) (between : Bool) {v w : Value} {names names' : List Value}
    (hnames : Value.AgreeAt V (List.replicate (if between then 2 else 1) [0]) names names') :
    spaceNames origin between (v :: names).reverse =
      spaceNames origin between (w :: names').reverse := by
  have htext {a b : Value} (hab : a.Agrees Eq (· ∈ [0]) b) : a.getString 0 = b.getString 0 :=
    hab.get 0 (List.mem_singleton_self 0) .string
  cases between with
  | true =>
    rcases hnames with _ | @⟨_, _, a, a', _, _, ha, _, _, hnames⟩
    rcases hnames with _ | @⟨_, _, b, b', _, _, hb, _, _, _ | _⟩
    exact Prod.ext (htext hb) (htext ha)
  | false =>
    rcases hnames with _ | @⟨_, _, a, a', _, _, ha, _, _, _ | _⟩
    exact Prod.ext rfl (htext ha)

/-- A function of the last operand, read at the running points. -/
theorem paired_produce_onLast (h : InStep Eq V K hand hand' s t)
    (hmask : ∀ k ∈ s.machine.mask.ones, k < s.machine.gridSize) (i : Instruction) (f : Elementwise)
    {v w : Value} {names names' : List Value} (hv : hand.reverse.map s.machine.pools.value = v :: names)
    (hw : hand'.reverse.map t.machine.pools.value = w :: names')
    (hvw : v.AgreesOn s.machine.mask w) :
    Paired (produce f.type hand (onLast i f)) s (produce f.type hand' (onLast i f)) t
      fun _ s' _ t' => Yields V K (· ∈ s.machine.mask.ones) s' t' := by
  have hlast {p : Pools} {slots : List Slot} {u : Value} {rest : List Value}
      (hu : slots.reverse.map p.value = u :: rest) :
      (slots.map p.value).drop ((slots.map p.value).length - 1) = [u] := by
    rw [List.map_reverse] at hu
    rw [List.reverse_eq_iff.mp hu]
    simp
  have huniform {p : Pools} {slots : List Slot} {u : Value} {rest : List Value}
      (hu : slots.reverse.map p.value = u :: rest)
      (hj : Detail.joinAll (slots.map (·.detail)) = .uniform) :
      ∀ x ∈ [u], x.detail = .uniform := by
    intro x hx
    obtain rfl := List.mem_singleton.mp hx
    obtain ⟨slot, hslot, rfl⟩ := List.mem_map.mp (hu ▸ List.mem_cons_self : x ∈ slots.reverse.map p.value)
    exact Detail.uniform_of_joinAll hj _ (List.mem_map_of_mem (List.mem_reverse.mp hslot))
  have hdetails : hand'.map (·.detail) = hand.map (·.detail) := by
    have hd := h.details
    rw [List.forall₂_eq_eq_eq] at hd
    exact hd.symm
  refine (paired_produceAs h (P := s.Active) fun out out' hout hout' ht ht' hd hd' =>
    ⟨?_, rfl⟩).imp fun _ _ _ _ hp => hp.yields.imp fun k hk => ⟨hk, hmask k hk⟩
  show SameOutcome _ (f.fill i.name ((hand.map s.machine.pools.value).drop _) out s.machine.mask)
    (f.fill i.name ((hand'.map t.machine.pools.value).drop _) out' s.machine.mask)
  rw [hlast hv, hlast hw]
  exact (f.pointwiseFilling i.name 1).agrees Detail.allows_eq s.machine.mask (.cons hvw .nil) rfl
    (fun _ hi _ => hi) hout hout' ht ht' (by rw [hd, hd', hdetails])
    (fun hu => huniform hv (hd ▸ hu)) (fun hu => huniform hw (hd' ▸ hu))

/-- The same after a report. -/
theorem paired_report_onLast (h : InStep Eq V K hand hand' s t)
    (hmask : ∀ k ∈ s.machine.mask.ones, k < s.machine.gridSize) (i : Instruction) (f : Elementwise)
    {v w : Value} {names names' : List Value} (hv : hand.reverse.map s.machine.pools.value = v :: names)
    (hw : hand'.reverse.map t.machine.pools.value = w :: names')
    (hvw : v.AgreesOn s.machine.mask w) (missing : Bool) (text : String) :
    Paired (do if missing then serve (Environment.report text)
               produce f.type hand (onLast i f)) s
      (do if missing then serve (Environment.report text)
          produce f.type hand' (onLast i f)) t
      fun _ s' _ t' => Yields V K (· ∈ s.machine.mask.ones) s' t' := by
  cases missing with
  | false => exact paired_produce_onLast h hmask i f hv hw hvw
  | true =>
    refine (paired_serve h _).bind fun _ s' _ t' h' => ?_
    obtain ⟨-, hs, ht, h'⟩ := h'
    rw [← hs] at hv hmask hvw ⊢
    rw [← ht] at hw
    exact paired_produce_onLast h' hmask i f hv hw hvw

variable (h : InStep Eq V K [] [] s t) (i : Instruction)
  (hmask : ∀ k ∈ s.machine.mask.ones, k < s.machine.gridSize)
include h hmask

/-- Names and a value are taken from both stacks; the names are the same. -/
theorem paired_popNames (origin : String) (between : Bool)
    (hreads : s.Reads K (s.machine.mask.ones :: List.replicate (if between then 2 else 1) [0])) :
    Paired (pop i (if between then 3 else 2)) s (pop i (if between then 3 else 2)) t
      fun slots s' slots' t' => spaceNames origin between (slots.map s'.machine.pools.value) =
          spaceNames origin between (slots'.map t'.machine.pools.value) ∧
        ∃ v w names names', slots.reverse.map s'.machine.pools.value = v :: names ∧
          slots'.reverse.map t'.machine.pools.value = w :: names' ∧ v.AgreesOn s'.machine.mask w ∧
          (∀ k ∈ s'.machine.mask.ones, k < s'.machine.gridSize) ∧ s.SameFrame s' ∧
          InStep Eq V K slots slots' s' t' := by
  have hpop := paired_popRead h i hreads
  rw [show (s.machine.mask.ones :: List.replicate (if between then 2 else 1) [0]).length =
    if between then 3 else 2 by cases between <;> rfl] at hpop
  refine hpop.imp fun slots s' slots' t' h' => ?_
  obtain ⟨hagree, hframe, h'⟩ := h'
  generalize hvs : slots.reverse.map s'.machine.pools.value = vs at hagree
  generalize hws : slots'.reverse.map t'.machine.pools.value = ws at hagree
  rcases hagree with _ | @⟨_, _, v, w, names, names', hvw, _, _, hnames⟩
  have hpushed {p : Pools} {as : List Slot} {us : List Value} (hus : as.reverse.map p.value = us) :
      as.map p.value = us.reverse := by
    rw [← hus, List.map_reverse, List.reverse_reverse]
  refine ⟨?_, v, w, names, names', rfl, rfl, hframe.mask ▸ hvw, ?_, hframe, h'⟩
  · rw [hpushed hvs, hpushed hws, spaceNames_congr origin between hnames]
  · rw [hframe.mask, hframe.gridSize]
    exact hmask

theorem paired_transform (type : ValueType) (between : Bool)
    (hreads : s.Reads K (s.machine.mask.ones :: List.replicate (if between then 2 else 1) [0])) :
    Paired (transform i type between) s (transform i type between) t fun _ s' _ t' =>
      Yields V K (· ∈ s.machine.mask.ones) s' t' := by
  unfold transform
  refine (paired_popNames h i hmask "current" between hreads).bind fun slots s' slots' t' h' => ?_
  obtain ⟨hspaces, v, w, names, names', hvs, hws, hvw, hmask', hframe, h'⟩ := h'
  rw [paired_values_bind, hspaces]
  generalize spaceNames "current" between _ = spaces
  obtain ⟨source, target⟩ := spaces
  dsimp only
  rw [paired_environment_bind, h'.host, ← hframe.mask]
  exact paired_report_onLast h' hmask' i ⟨type, _, _, _⟩ hvs hws hvw _ _

theorem paired_transformColor (between : Bool)
    (hreads : s.Reads K (s.machine.mask.ones :: List.replicate (if between then 2 else 1) [0])) :
    Paired (transformColor i between) s (transformColor i between) t fun _ s' _ t' =>
      Yields V K (· ∈ s.machine.mask.ones) s' t' := by
  unfold transformColor
  refine (paired_popNames h i hmask "rgb" between hreads).bind fun slots s' slots' t' h' => ?_
  obtain ⟨hspaces, v, w, names, names', hvs, hws, hvw, hmask', hframe, h'⟩ := h'
  rw [paired_values_bind, hspaces]
  generalize spaceNames "rgb" between _ = spaces
  obtain ⟨source, target⟩ := spaces
  dsimp only
  rw [← hframe.mask]
  exact paired_report_onLast h' hmask' i ⟨.color, _, _, _⟩ hvs hws hvw _ _

end Transforms

section Queries

/-- An attribute or option has the kind of the variable that it is asked for. -/
theorem sameKind_of_find? {values : List (String × Variable)} {name : String} {v w : Variable}
    (h : Grid.find? values name v = some w) : v.toValue.SameKind w.toValue := by
  unfold Grid.find? at h
  cases hl : values.lookup name with
  | none => simp [hl] at h
  | some source =>
    simp only [hl, Option.bind_eq_bind, Option.bind_some] at h
    cases ha : v.assign source.toValue (.full v.size) with
    | error e => simp [ha, Except.toOption] at h
    | ok x =>
      obtain rfl : x = w := by simpa [ha, Except.toOption] using h
      exact (Variable.sameKind_of_assign ha).value

theorem isShaped_fresh (name : String) (type : ValueType) (detail : Detail) (n : Nat) :
    (((Variable.fresh name type detail).sizeTo n).toValue).IsShaped n := by
  cases detail with
  | uniform => exact ⟨rfl, rfl⟩
  | varying => exact ⟨rfl, Data.size_resize ..⟩

/-- The name is read at the first point; what is found is the same on both sides. -/
theorem paired_query (h : InStep Eq V K [] [] s t) (i : Instruction)
    (hsize : s.machine.mask.size ≤ s.machine.gridSize) (hreads : s.Reads K [[0]])
    (ask : String → Variable → Serving Grid (Option Variable))
    (hask : ∀ name v host w, ((ask name v).run host).1 = some w → v.toValue.SameKind w.toValue) :
    Paired (query i ask) s (query i ask) t fun _ s' _ t' => Yields V K (fun _ => True) s' t' := by
  unfold query
  refine Paired.ofExcept_bind h.sameOutside fun r _ => ?_
  refine (paired_popKnown h i hreads).bind fun v s' w t' h' => ?_
  obtain ⟨hvw, hframe, h'⟩ := h'
  dsimp only
  rw [show v.getString 0 = w.getString 0 from hvw.get 0 (List.mem_singleton_self 0) .string]
  refine (paired_readVariable h' r).bind fun dest s'' dest' t'' hdest => ?_
  obtain ⟨rfl, rfl, rfl, -⟩ := hdest
  rw [paired_machine_bind, h'.gridSize, paired_serve_bind, h'.host]
  have hkind := hask (w.getString 0)
    ((Variable.fresh (w.getString 0) dest.type dest.detail).sizeTo s''.machine.gridSize) s''.host
  generalize (ask (w.getString 0) ((Variable.fresh (w.getString 0) dest.type dest.detail).sizeTo
    s''.machine.gridSize)).run s''.host = answer at hkind ⊢
  obtain ⟨found, host⟩ := answer
  have hanswered := h'.serve host
  have htruth {s₁ t₁ : Session Grid} (h₁ : InStep Eq V K [] [] s₁ t₁) :
      Paired (pushTruth found.isSome) s₁ (pushTruth found.isSome) t₁ fun _ s' _ t' =>
        Yields V K (fun _ => True) s' t' :=
    (paired_pushUniform h₁ .float _).imp fun _ _ _ _ hp => hp.yields
  cases found with
  | none => exact htruth hanswered
  | some x =>
    have hfits : V x.toValue :=
      h'.fitting.of_shaped ((isShaped_fresh _ dest.type dest.detail _).sameKind (hkind x rfl))
    refine Paired.bind (paired_assign hanswered ?_ i r (.refl Detail.allows_eq (fun _ => True)
      x.toValue) hfits hfits fun _ _ => trivial) fun _ _ _ _ h₁ => htruth h₁
    show s''.machine.mask.size ≤ s''.machine.gridSize
    rw [hframe.mask, hframe.gridSize]
    exact hsize

end Queries

section Answered

variable (h : InStep Eq V K [] [] s t) (i : Instruction)
  (hmask : ∀ k ∈ s.machine.mask.ones, k < s.machine.gridSize)
include h hmask

theorem paired_noise (cells : Bool) {type : ValueType}
    (hs : type.storage ≠ .string ∧ type.storage ≠ .matrix) (dimensions : Nat)
    (hreads : s.Reads K
      (List.replicate (if dimensions % 2 = 0 then 2 else 1) s.machine.mask.ones)) :
    Paired (noise i cells type dimensions) s (noise i cells type dimensions) t fun _ s' _ t' =>
      Yields V K (· ∈ s.machine.mask.ones) s' t' := by
  have hpop := paired_pop_asked h i hreads type Detail.joinAll (Environment.noise cells)
    fun vs ws hvs =>
      Grid.fillsAlike_noise hmask cells hs (List.rel_reverse hvs.forall₂) fun hu v hv =>
        Detail.uniform_of_joinAll hu _ (List.mem_map_of_mem hv)
  rw [List.length_replicate] at hpop
  exact hpop

/-- What a lookup asks: the name of the map and the channel come before the coordinates. -/
def askTexture (kind : TextureKind) (args : List Value) (out : Value) (mask : Mask) :
    Serving Grid Value :=
  match args with
  | name :: channel :: coordinates => Environment.texture kind name channel coordinates out mask
  | _ => return out

/-- A map is looked up by its name and the channel, both at the first point. -/
theorem paired_lookUp (kind : TextureKind) {type : ValueType}
    (hs : type.storage = .float ∨ type.storage = .color) (coordinates : Nat)
    (hreads : s.Reads K (Service.lookUpReading type coordinates)) :
    Paired (lookUp i kind type (coordinates + 2)) s (lookUp i kind type (coordinates + 2)) t
      fun _ s' _ t' => Yields V K (· ∈ s.machine.mask.ones) s' t' := by
  have hpop := paired_pop_asked h i hreads type (fun _ => .varying) (askTexture kind)
    fun vs ws hvs => by
    obtain ⟨us, vs', xs, ws', rfl, rfl, hlast⟩ := hvs.of_append
    rcases hlast with _ | @⟨_, _, channel, channel', _, _, hchannel, _, _, hlast⟩
    rcases hlast with _ | @⟨_, _, name, name', _, _, hname, _, _, _ | _⟩
    rw [List.reverse_append, List.reverse_append]
    exact Grid.fillsAlike_texture hmask kind hs hname hchannel
  rw [show (Service.lookUpReading type coordinates).length = coordinates + 2 by
    simp [Service.lookUpReading]] at hpop
  exact hpop

theorem paired_service (hsize : s.machine.mask.size ≤ s.machine.gridSize) (f : Service)
    (hfills : f.Fills) (hreads : s.Reads K (f.reading s.host.env s.machine.mask)) :
    Paired (service i f) s (service i f) t fun _ s' _ t' =>
      Yields V K (· ∈ s.machine.mask.ones) s' t' := by
  have hfit {v w : Value} {P : Nat → Prop} (hv : V v) (hw : V w) (hvw : v.Agrees Eq P w)
      (hd : v.detail = .varying) : v.size = w.size := by
    rw [h.fitting.size hv hd, h.fitting.size hw (hvw.detail ▸ hd)]
  cases f with
  | transform type between => exact paired_transform h i hmask type between hreads
  | transformColor between => exact paired_transformColor h i hmask between hreads
  | depth =>
    refine paired_pop_asked h i hreads _ Detail.joinAll _ fun vs ws hvs => ?_
    rcases hvs with _ | @⟨_, _, v, w, _, _, hvw, _, _, _ | _⟩
    exact .asking (x := (Grid.depth · v · s.machine.mask)) (y := (Grid.depth · w · s.machine.mask))
      (Grid.fillsAlike_depth hmask hvw fun hu => Detail.uniform_of_joinAll hu _ (by simp))
  | calculateNormal =>
    refine paired_pop_asked h i hreads _ Detail.joinAll _ fun vs ws hvs => ?_
    rcases hvs with _ | @⟨_, _, v, w, _, _, hvw, hv, hw, _ | _⟩
    refine .asking (x := (Grid.calculateNormal · v · s.machine.mask))
      (y := (Grid.calculateNormal · w · s.machine.mask)) ?_
    simp only [Grid.calculateNormal_eq]
    exact Grid.fillsAlike_ofDifferences hmask hvw (hfit hv hw hvw)
      (fun hu => Detail.uniform_of_joinAll hu _ (by simp)) rfl _
  | area =>
    refine paired_pop_asked h i hreads _ Detail.joinAll _ fun vs ws hvs => ?_
    rcases hvs with _ | @⟨_, _, v, w, _, _, hvw, hv, hw, _ | _⟩
    refine .asking (x := (Grid.area · v · s.machine.mask)) (y := (Grid.area · w · s.machine.mask)) ?_
    simp only [Grid.area_eq]
    exact Grid.fillsAlike_ofDifferences hmask hvw (hfit hv hw hvw)
      (fun hu => Detail.uniform_of_joinAll hu _ (by simp)) rfl _
  | alongU type | alongV type =>
    refine paired_pop_asked h i hreads _ (fun _ => .varying) _ fun vs ws hvs => ?_
    rcases hvs with _ | @⟨_, _, v, w, _, _, hvw, hv, hw, _ | _⟩
    exact Grid.fillsAlike_derivative hmask hvw (hfit hv hw hvw) .none
  | derivative type =>
    refine paired_pop_asked h i hreads _ (fun _ => .varying) _ fun vs ws hvs => ?_
    rcases hvs with _ | @⟨_, _, y, y', _, _, hy, hyfits, hyfits', hvs⟩
    rcases hvs with _ | @⟨_, _, x, x', _, _, hx, hxfits, hxfits', _ | _⟩
    exact Grid.fillsAlike_derivative hmask hx (hfit hxfits hxfits' hx)
      (hy.field? (hfit hyfits hyfits' hy) .float)
  | random type => exact paired_produceAs_asked h (Grid.fillsAlike_random hfills rfl)
  | noise type dimensions => exact paired_noise h i hmask false hfills dimensions hreads
  | cellNoise type dimensions => exact paired_noise h i hmask true hfills dimensions hreads
  | ambient => exact paired_produceAs_asked h (fillsAlike_write hmask rfl fun _ _ => rfl)
  | diffuse =>
    refine paired_pop_asked h i hreads _ (fun _ => .varying) _ fun vs ws hvs => ?_
    rcases hvs with _ | @⟨_, _, v, w, _, _, hvw, _, _, _ | _⟩
    exact .asking (x := (Grid.diffuse · v · s.machine.mask))
      (y := (Grid.diffuse · w · s.machine.mask)) (Grid.fillsAlike_diffuse hmask hvw)
  | specular =>
    refine paired_pop_asked h i hreads _ (fun _ => .varying) _ fun vs ws hvs => ?_
    rcases hvs with _ | @⟨_, _, r, r', _, _, hr, _, _, hvs⟩
    rcases hvs with _ | @⟨_, _, u, x, _, _, hux, _, _, hvs⟩
    rcases hvs with _ | @⟨_, _, v, w, _, _, hvw, _, _, _ | _⟩
    exact .asking (x := (Grid.specular · v u r · s.machine.mask))
      (y := (Grid.specular · w x r' · s.machine.mask)) (Grid.fillsAlike_specular hmask hvw hux hr)
  | phong =>
    refine paired_pop_asked h i hreads _ (fun _ => .varying) _ fun vs ws hvs => ?_
    rcases hvs with _ | @⟨_, _, r, r', _, _, hr, _, _, hvs⟩
    rcases hvs with _ | @⟨_, _, u, x, _, _, hux, _, _, hvs⟩
    rcases hvs with _ | @⟨_, _, v, w, _, _, hvw, _, _, _ | _⟩
    exact .asking (x := (Grid.phong · v u r · s.machine.mask))
      (y := (Grid.phong · w x r' · s.machine.mask)) (Grid.fillsAlike_phong hmask hvw hux hr)
  | texture type coordinates =>
    cases coordinates with
    | false => exact paired_lookUp h i hmask _ hfills 0 hreads
    | true => exact paired_lookUp h i hmask _ hfills 2 hreads
  | surroundings type => exact paired_lookUp h i hmask _ hfills 1 hreads
  | shadow => exact paired_lookUp h i hmask _ (.inl rfl) 1 hreads
  | trace =>
    refine paired_pop_asked h i hreads _ (fun _ => .varying) _ fun vs ws hvs => ?_
    rcases hvs with _ | @⟨_, _, _, _, _, _, _, _, _, hvs⟩
    rcases hvs with _ | @⟨_, _, _, _, _, _, _, _, _, _ | _⟩
    exact FillsAlike.bind (x := fun _ out => return out.clear s.machine.mask)
      (y := fun _ out => return out.clear s.machine.mask) rfl (fillsAlike_clear hmask)
  | «attribute» =>
    exact (paired_query h i hsize hreads Environment.attribute? fun _ _ _ _ hw =>
      sameKind_of_find? hw).imp fun _ _ _ _ hp => hp.imp fun _ _ => trivial
  | option =>
    exact (paired_query h i hsize hreads Environment.option? fun _ _ _ _ hw =>
      sameKind_of_find? hw).imp fun _ _ _ _ hp => hp.imp fun _ _ => trivial

omit hmask in
theorem paired_startIlluminance (category : Option String) :
    Paired (startIlluminance category) s (startIlluminance category) t fun _ s' _ t' =>
      Yields V K (fun _ => True) s' t' := by
  refine (paired_serve h _).bind fun _ s₁ _ t₁ h₁ => (paired_serve h₁.2.2.2 _).bind
    fun b s₂ c t₂ h₂ => ?_
  obtain ⟨rfl, -, -, h₂⟩ := h₂
  exact (paired_pushUniform h₂ .float _).imp fun _ _ _ _ hp => hp.yields

theorem paired_illumination (f : Illumination)
    (hreads : s.Reads K (f.reading s.host.env s.machine.mask)) :
    Paired (illumination i f) s (illumination i f) t fun _ s' _ t' =>
      Yields V K (· ∈ s.machine.mask.ones) s' t' := by
  cases f with
  | start => exact (paired_startIlluminance h none).imp fun _ _ _ _ hp => hp.imp fun _ _ => trivial
  | startCategory =>
    refine (paired_popKnown h i hreads).bind fun v s' w t' h' => ?_
    obtain ⟨hvw, -, h'⟩ := h'
    rw [show v.getString 0 = w.getString 0 from hvw.get 0 (List.mem_singleton_self 0) .string]
    exact (paired_startIlluminance h' _).imp fun _ _ _ _ hp => hp.imp fun _ _ => trivial
  | advance =>
    refine (paired_serve h _).bind fun b s₁ c t₁ h₁ => ?_
    obtain ⟨rfl, -, -, h₁⟩ := h₁
    exact (paired_pushUniform h₁ .float _).imp fun _ _ _ _ hp => hp.yields.imp fun _ _ => trivial
  | illuminance =>
    refine paired_pop_asked h i hreads _ (fun _ => .varying) _ fun vs ws hvs => ?_
    rcases hvs with _ | @⟨_, _, r, r', _, _, hr, _, _, hvs⟩
    rcases hvs with _ | @⟨_, _, u, x, _, _, hux, _, _, hvs⟩
    rcases hvs with _ | @⟨_, _, v, w, _, _, hvw, _, _, _ | _⟩
    exact Grid.fillsAlike_illuminance hmask hvw hux hr
  | illuminanceCategory =>
    refine paired_pop_asked h i hreads _ (fun _ => .varying) _ fun vs ws hvs => ?_
    rcases hvs with _ | @⟨_, _, r, r', _, _, hr, _, _, hvs⟩
    rcases hvs with _ | @⟨_, _, u, x, _, _, hux, _, _, hvs⟩
    rcases hvs with _ | @⟨_, _, v, w, _, _, hvw, _, _, hvs⟩
    rcases hvs with _ | @⟨_, _, _, _, _, _, _, _, _, _ | _⟩
    exact Grid.fillsAlike_illuminance hmask hvw hux hr
  | illuminate =>
    refine paired_pop_asked h i hreads _ (fun _ => .varying) _ fun vs ws hvs => ?_
    rcases hvs with _ | @⟨_, _, r, r', _, _, hr, _, _, hvs⟩
    rcases hvs with _ | @⟨_, _, u, x, _, _, hux, _, _, hvs⟩
    rcases hvs with _ | @⟨_, _, v, w, _, _, hvw, _, _, _ | _⟩
    exact Grid.fillsAlike_illuminate hmask hvw (.some hux) (.some hr)
  | illuminateAll =>
    refine paired_pop_asked h i hreads _ (fun _ => .varying) _ fun vs ws hvs => ?_
    rcases hvs with _ | @⟨_, _, v, w, _, _, hvw, _, _, _ | _⟩
    exact Grid.fillsAlike_illuminate hmask hvw .none .none
  | solar =>
    refine paired_pop_asked h i hreads _ (fun _ => .varying) _ fun vs ws hvs => ?_
    rcases hvs with _ | @⟨_, _, _, _, _, _, _, _, _, hvs⟩
    rcases hvs with _ | @⟨_, _, v, w, _, _, hvw, _, _, _ | _⟩
    exact Grid.fillsAlike_solar hmask (.some hvw)
  | solarAll => exact paired_produceAs_asked h (Grid.fillsAlike_solar hmask .none)

end Answered

end Exec

end ShadingMachine
