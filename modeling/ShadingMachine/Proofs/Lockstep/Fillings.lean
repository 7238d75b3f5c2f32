import ShadingMachine.Proofs.Lockstep.Neighbours

/-! What the grid answers point by point: depth, noise, chance, light, maps. Each is filled alike from
operands that agree where they are read. -/
namespace ShadingMachine

namespace Value

/-- Values that agree where a result is computed. -/
abbrev AgreesOn (mask : Mask) (v w : Value) : Prop := v.Agrees Eq (· ∈ mask.ones) w

/-- A new result varies, or the operand is uniform like it. -/
theorem Agrees.get_filled {mask : Mask} {v w : Value} (h : v.AgreesOn mask w) {detail : Detail}
    (hu : detail = .uniform → v.detail = .uniform) {i : Nat} (hi : i ∈ detail.points mask)
    (s : Storage) : v.get s i = w.get s i := h.get_points (fun _ hk => hk) hu hi s

end Value

/-- The types of which the grid can fill a result; the mnemonics of a program name no others. -/
def Service.Fills : Service → Prop
  | .noise type _ | .cellNoise type _ => type.storage ≠ .string ∧ type.storage ≠ .matrix
  | .random type => type.storage ≠ .string ∧ type.storage ≠ .matrix
  | .texture type _ | .surroundings type => type.storage = .float ∨ type.storage = .color
  | _ => True

instance (f : Service) : Decidable f.Fills := by
  cases f <;> unfold Service.Fills <;> infer_instance

namespace Grid

variable {n : Nat} {mask : Mask} {type : ValueType} {detail : Detail} {h : Host Grid}
variable {v w : Value}

section Chance

theorem coordinates_congr {vs ws : List Value} {i : Nat}
    (hvs : List.Forall₂ (Value.SameElement i i) vs ws) : coordinates vs i = coordinates ws i := by
  unfold coordinates
  induction hvs with
  | nil => rfl
  | cons hv _ ih =>
    rw [List.flatMap_cons, List.flatMap_cons, ih]
    unfold Value.getTriple Value.getFloat
    rw [hv.storage, hv.get, hv.get]

/-- The noise at a point, of a storage that has noise. -/
def noiseAt (cells : Bool) (args : List Value) (i : Nat) : (s : Storage) → s.Elem
  | .float => channel 0
  | .triple => ⟨channel 0, channel 1, channel 2⟩
  | .color => ⟨channel 0, channel 1, channel 2⟩
  | .string => ""
  | .matrix => .identity
where
  channel : Nat → Float32 := (if cells then Noise.cell else Noise.smooth) (coordinates args i)

theorem noise_eq (cells : Bool) (args : List Value) {out : Value} {s : Storage}
    (hout : out.data.storage = s) (hs : s ≠ .string ∧ s ≠ .matrix) :
    noise cells args out mask = out.write s mask (noiseAt cells args · s) := by
  unfold noise
  rw [hout]
  cases s with
  | float | triple | color => rfl
  | string => exact absurd rfl hs.1
  | matrix => exact absurd rfl hs.2

theorem fillsAlike_noise (hmask : ∀ i ∈ mask.ones, i < n) (cells : Bool)
    (hs : type.storage ≠ .string ∧ type.storage ≠ .matrix) {vs ws : List Value}
    (hvs : List.Forall₂ (Value.AgreesOn mask) vs ws)
    (hu : detail = .uniform → ∀ v ∈ vs, v.detail = .uniform) :
    FillsAlike n mask type detail h (fun out => return noise cells vs out mask)
      (fun out => return noise cells ws out mask) := by
  refine (fillsAlike_write hmask rfl (f := (noiseAt cells vs · type.storage))
    (g := (noiseAt cells ws · type.storage)) fun i hi => ?_).of_eq
      (fun _ hout => noise_eq cells vs hout hs) fun _ hout => noise_eq cells ws hout hs
  unfold noiseAt noiseAt.channel
  rw [coordinates_congr (Value.Agrees.sameElement hvs hu hi)]

theorem drawnStorage_eq {s : Storage} (hs : s ≠ .string ∧ s ≠ .matrix) : s = drawnStorage s := by
  cases s with
  | float | triple | color => rfl
  | string => exact absurd rfl hs.1
  | matrix => exact absurd rfl hs.2

theorem drawAt_cons {out : Value} {s : Storage} (hs : out.data.storage = s) (i : Nat)
    (points : List Nat) : drawAt out (i :: points) =
      drawElement s >>= fun x => drawAt (out.set (drawnStorage s) i x) points := by
  subst hs
  unfold drawAt
  rw [List.foldlM_cons, bind_assoc]
  rfl

/-- By induction on the points: the generator is used alike, and what is drawn is the same. -/
theorem filledAlike_drawAt (points : List Nat) {P : Nat → Prop} {out out' : Value}
    (hout : out.Agrees Eq P out') (hsize : out.size = out'.size)
    (hs : out.data.storage ≠ .string ∧ out.data.storage ≠ .matrix) (seed : UInt64) :
    Value.FilledAlike (fun k => P k ∨ k ∈ points) out out' ((drawAt out points).run seed)
      ((drawAt out' points).run seed) := by
  induction points generalizing P out out' seed with
  | nil => exact ⟨hout.imp fun k hk => hk.resolve_right (by simp), .refl out, .refl out', rfl⟩
  | cons i points ih =>
    rw [drawAt_cons rfl, drawAt_cons hout.storage.symm, StateT.run_bind, StateT.run_bind]
    generalize (drawElement out.data.storage).run seed = drawn
    have hkind := out.sameKind_set (drawnStorage out.data.storage) i drawn.1
    have hkind' := out'.sameKind_set (drawnStorage out.data.storage) i drawn.1
    have hr := ih (hout.set hsize i (drawnStorage_eq hs) drawn.1)
      (hkind.size.trans (hsize.trans hkind'.size.symm)) (by rwa [hkind.storage]) drawn.2
    refine ⟨hr.agrees.imp fun k hk => ?_, hkind.trans hr.kind, hkind'.trans hr.kind', hr.left⟩
    rw [List.mem_cons] at hk
    tauto

theorem fillsAlike_random (hs : type.storage ≠ .string ∧ type.storage ≠ .matrix)
    (hdetail : detail = .varying) :
    FillsAlike n mask type detail h (fun out => random out mask) (fun out => random out mask) := by
  intro out out' hout hout'
  have hpoints {v : Value} (hv : v.IsNew n type detail) : v.points mask = mask.ones :=
    Value.points_varying (hv.detail.trans hdetail) mask
  have hnew := hout.agrees_nowhere hout'.toIsShaped (hout.type.trans hout'.type.symm)
    (hout.detail.trans hdetail) (hout'.detail.trans hdetail)
  have hr := filledAlike_drawAt mask.ones hnew
    (by rw [hout.size, hout'.size, hout.detail, hout'.detail])
    (by rwa [hout.storage, hout.type]) h.env.seed
  show Value.FilledAlike (· ∈ mask.ones) out out'
    (((drawAt out (out.points mask)).run h.env.seed).1, { h with env := { h.env with
      seed := ((drawAt out (out.points mask)).run h.env.seed).2 } })
    (((drawAt out' (out'.points mask)).run h.env.seed).1, { h with env := { h.env with
      seed := ((drawAt out' (out'.points mask)).run h.env.seed).2 } })
  rw [hpoints hout, hpoints hout']
  exact ⟨hr.agrees.imp fun _ hk => .inr hk, hr.kind, hr.kind', by rw [hr.left]⟩

end Chance

theorem fillsAlike_depth (hmask : ∀ i ∈ mask.ones, i < n) (hvw : v.AgreesOn mask w)
    (hu : detail = .uniform → v.detail = .uniform) :
    FillsAlike n mask .float detail h (fun out => return h.env.depth v out mask)
      (fun out => return h.env.depth w out mask) := by
  refine fillsAlike_write hmask rfl fun i hi => ?_
  unfold Value.getTriple
  rw [hvw.get_filled hu hi]

section Light

variable {u x : Value} {roughness roughness' : Value}

/-- Light that falls where the operands fit. -/
theorem fillsAlike_fitting (hmask : ∀ i ∈ mask.ones, i < n) {b b' : Bool} (hb : b = b')
    {f g : Nat → Color Float32} (hfg : ∀ i ∈ mask.ones, f i = g i) :
    FillsAlike n mask .color .varying h
      (fun out => return if !b then out.clear mask else out.write .color mask f)
      (fun out => return if !b' then out.clear mask else out.write .color mask g) := by
  subst hb
  cases b with
  | false => exact fillsAlike_clear hmask
  | true => exact fillsAlike_write hmask rfl hfg

theorem fillsAlike_diffuse (hmask : ∀ i ∈ mask.ones, i < n) (hvw : v.AgreesOn mask w) :
    FillsAlike n mask .color .varying h (fun out => return h.env.diffuse v out mask)
      (fun out => return h.env.diffuse w out mask) := by
  refine fillsAlike_fitting hmask (by simp only [fits, List.all_cons, hvw.storage]) fun i hi => ?_
  unfold Value.getTriple
  rw [hvw.get i hi]

theorem fillsAlike_specular (hmask : ∀ i ∈ mask.ones, i < n) (hvw : v.AgreesOn mask w)
    (hux : u.AgreesOn mask x) (hr : roughness.AgreesOn mask roughness') :
    FillsAlike n mask .color .varying h (fun out => return h.env.specular v u roughness out mask)
      (fun out => return h.env.specular w x roughness' out mask) := by
  refine fillsAlike_fitting hmask (by
    simp only [fits, List.all_cons, hvw.storage, hux.storage, hr.storage]) fun i hi => ?_
  unfold Value.getTriple Value.getFloat
  rw [hvw.get i hi, hux.get i hi, hr.get i hi]

theorem fillsAlike_phong (hmask : ∀ i ∈ mask.ones, i < n) (hvw : v.AgreesOn mask w)
    (hux : u.AgreesOn mask x) (hr : roughness.AgreesOn mask roughness') :
    FillsAlike n mask .color .varying h (fun out => return h.env.phong v u roughness out mask)
      (fun out => return h.env.phong w x roughness' out mask) := by
  refine fillsAlike_fitting hmask (by
    simp only [fits, List.all_cons, hvw.storage, hux.storage, hr.storage]) fun i hi => ?_
  unfold Value.getTriple Value.getFloat
  rw [hvw.get i hi, hux.get i hi, hr.get i hi]

/-- The points at which the light of a sample is written. -/
def lightPoints (g : Grid) (mask : Mask) : List Nat :=
  (g.graphics.get .lightVector).points mask ++ (g.graphics.get .lightColor).points mask

/-- The variables of the light are set alike. -/
theorem modifyGraphics_congr (g : Grid) (x : GraphicsVariable) {s : Storage} {f f' : Nat → s.Elem}
    (hf : ∀ i ∈ (g.graphics.get x).points mask, f i = f' i) :
    g.modifyGraphics x (·.write s mask f) = g.modifyGraphics x (·.write s mask f') :=
  congrArg (fun value : Value => { g with
    graphics := g.graphics.set x { g.graphics.get x with toValue := value } }) (Value.write_congr _ hf)

/-- The sample of a light is written to the variables of the light. -/
def illuminated (g : Grid) (light : Light) (p : Value) (mask : Mask) : Grid :=
  (g.modifyGraphics .lightVector (·.write .triple mask fun i => -light.incident (p.getTriple i))
    ).modifyGraphics .lightColor (·.write .color mask fun i =>
      light.radiance (light.incident (p.getTriple i)))

theorem illuminance_run (p axis angle out : Value) (mask : Mask) (h : Host Grid) :
    (illuminance p axis angle out mask).run h =
      match h.env.currentLight? with
      | none => (out.clear mask, h)
      | some light => (out.write .float mask fun i => Scalar.ofBool (insideCone (axis.getTriple i)
          (angle.getFloat i) (-light.incident (p.getTriple i))),
          { h with env := h.env.illuminated light p mask }) := by
  unfold illuminance
  rw [StateT.run_bind, StateT.run_get, pure_bind]
  cases h.env.currentLight? <;> rfl

theorem illuminated_congr (g : Grid) (light : Light)
    (hvw : ∀ i ∈ g.lightPoints mask, v.getTriple i = w.getTriple i) :
    g.illuminated light v mask = g.illuminated light w mask := by
  unfold illuminated
  rw [modifyGraphics_congr g .lightVector fun i hi => by rw [hvw i (List.mem_append_left _ hi)]]
  refine modifyGraphics_congr _ .lightColor fun i hi => ?_
  rw [hvw i (List.mem_append_right _ ?_)]
  unfold modifyGraphics GraphicsState.modify at hi
  rwa [GraphicsState.get_set, if_neg (by decide)] at hi

theorem fillsAlike_illuminance (hmask : ∀ i ∈ mask.ones, i < n)
    (hvw : v.Agrees Eq (· ∈ mask.ones ++ h.env.lightPoints mask) w) (hux : u.AgreesOn mask x)
    (hr : roughness.AgreesOn mask roughness') :
    FillsAlike n mask .float .varying h (fun out => illuminance v u roughness out mask)
      (fun out => illuminance w x roughness' out mask) := by
  intro out out' hout hout'
  rw [illuminance_run, illuminance_run]
  cases h.env.currentLight? with
  | none => exact fillsAlike_clear hmask out out' hout hout'
  | some light =>
    dsimp only
    rw [illuminated_congr h.env light fun i hi => hvw.get i (List.mem_append_right _ hi) .triple]
    refine fillsAlike_write hmask rfl (fun i hi => ?_) out out' hout hout'
    unfold Value.getTriple Value.getFloat
    rw [hvw.get i (List.mem_append_left _ hi), hux.get i hi, hr.get i hi]

/-- Whether the cone, if there is one, admits the direction. -/
def insideCone? (axis? angle? : Option Value) (l : Nat → Triple Float32) (i : Nat) : Float32 :=
  match axis?, angle? with
  | some axis, some angle => Scalar.ofBool (insideCone (axis.getTriple i) (angle.getFloat i) (l i))
  | _, _ => 1

/-- The direction from a place to the points. -/
def towards (g : Grid) (p : Value) (i : Nat) : Triple Float32 :=
  (g.graphics.get .lightedPosition).getTriple i - p.getTriple i

theorem illuminate_run (p : Value) (axis? angle? : Option Value) (out : Value) (mask : Mask)
    (h : Host Grid) : (illuminate p axis? angle? out mask).run h =
      (out.write .float mask (insideCone? axis? angle? (h.env.towards p)), { h with
        env := h.env.modifyGraphics .lightVector (·.write .triple mask (h.env.towards p)) }) := by
  rfl

theorem fillsAlike_illuminate (hmask : ∀ i ∈ mask.ones, i < n)
    (hvw : v.Agrees Eq (· ∈ mask.ones ++ h.env.lightPoints mask) w)
    {axis? axis?' angle? angle?' : Option Value} (haxis : Option.Rel (Value.AgreesOn mask) axis? axis?')
    (hangle : Option.Rel (Value.AgreesOn mask) angle? angle?') :
    FillsAlike n mask .float .varying h (fun out => illuminate v axis? angle? out mask)
      (fun out => illuminate w axis?' angle?' out mask) := by
  have htowards {i : Nat} (hi : i ∈ mask.ones ++ h.env.lightPoints mask) :
      h.env.towards v i = h.env.towards w i := by
    unfold towards
    rw [show v.getTriple i = w.getTriple i from hvw.get i hi .triple]
  intro out out' hout hout'
  rw [illuminate_run, illuminate_run, modifyGraphics_congr h.env .lightVector fun i hi =>
    htowards (List.mem_append_right _ (List.mem_append_left _ hi))]
  refine fillsAlike_write hmask rfl (fun i hi => ?_) out out' hout hout'
  unfold insideCone?
  cases haxis with
  | none => rfl
  | some hux =>
    cases hangle with
    | none => rfl
    | some hr =>
      dsimp only
      unfold Value.getTriple Value.getFloat
      rw [htowards (List.mem_append_left _ hi), hux.get i hi, hr.get i hi]

theorem fillsAlike_solar (hmask : ∀ i ∈ mask.ones, i < n) {axis? axis?' : Option Value}
    (haxis : Option.Rel (Value.Agrees Eq (· ∈ h.env.lightPoints mask)) axis? axis?') :
    FillsAlike n mask .float .varying h (fun out => solar axis? out mask)
      (fun out => solar axis?' out mask) := by
  have hwrite (host : Host Grid) :
      FillsAlike n mask .float .varying host
        (fun out => return out.write .float mask fun _ => (1 : Float32))
        fun out => return out.write .float mask fun _ => (1 : Float32) :=
    fillsAlike_write hmask rfl fun _ _ => rfl
  intro out out' hout hout'
  cases haxis with
  | none => exact hwrite h out out' hout hout'
  | @some axis axis' hvw =>
    show Value.FilledAlike (· ∈ mask.ones) out out'
      (out.write .float mask fun _ => (1 : Float32), { h with
        env := h.env.modifyGraphics .lightVector (·.write .triple mask axis.getTriple) })
      (out'.write .float mask fun _ => (1 : Float32), { h with
        env := h.env.modifyGraphics .lightVector (·.write .triple mask axis'.getTriple) })
    have hset : h.env.modifyGraphics .lightVector (·.write .triple mask axis.getTriple) =
        h.env.modifyGraphics .lightVector (·.write .triple mask axis'.getTriple) :=
      modifyGraphics_congr h.env .lightVector fun i hi =>
        hvw.get i (List.mem_append_left _ hi) .triple
    rw [hset]
    exact hwrite _ out out' hout hout'

end Light

/-- A map has one color, whatever the coordinates. -/
theorem fillsAlike_texture (hmask : ∀ i ∈ mask.ones, i < n) (kind : TextureKind)
    (hs : type.storage = .float ∨ type.storage = .color) {name name' channel channel' : Value}
    (hname : name.Agrees Eq (· ∈ [0]) name')
    (hchannel : channel.Agrees Eq (· ∈ if type.storage = .color then [] else [0]) channel') :
    FillsAlike n mask type detail h (fun out => texture kind name channel out mask)
      (fun out => texture kind name' channel' out mask) := by
  have htext : name.getString 0 = name'.getString 0 := hname.get 0 (List.mem_singleton_self 0) .string
  intro out out' hout hout'
  unfold texture
  rw [htext, StateT.run_bind, StateT.run_bind, StateT.run_get, pure_bind, pure_bind]
  cases h.env.textures.lookup (name'.getString 0) with
  | none =>
    dsimp only
    split
    · exact fillsAlike_clear hmask out out' hout hout'
    · exact fillsAlike_clear hmask out out' hout hout'
  | some map =>
    dsimp only
    rw [hout.storage, hout'.storage, hout.type, hout'.type]
    split
    · rename_i hcolor
      exact fillsAlike_write hmask hcolor (fun _ _ => rfl) out out' hout hout'
    · rename_i hcolor
      rw [if_neg hcolor] at hchannel
      have hindex : channel.getFloat 0 = channel'.getFloat 0 :=
        hchannel.get 0 (List.mem_singleton_self 0) .float
      rw [hindex]
      exact fillsAlike_write hmask (hs.resolve_right hcolor) (fun _ _ => rfl) out out' hout hout'

end Grid

end ShadingMachine
