import ShadingMachine.Proofs.Frame.Moves

/-! What an instruction may change on a grid. Most of them move operands and ask the environment,
and leave variables and the states of the points alone; the few that do not assign to a variable,
store into an array, set the light of an illumination, or change the states of the points. A
property that survives those moves survives the instruction, whether it succeeds or fails. -/
namespace ShadingMachine.Exec

variable {I : Session Grid → Prop}

/-- The moves by which an instruction may change variables or the states of the points leave the
property as it was. -/
structure Permits (I : Session Grid → Prop) (i : Instruction) : Prop where
  assign (source : Value) : i.code = .popVariable ∨ i.code = .service .attribute ∨
    i.code = .service .option → ∀ r, i.variableRef = .ok r → Preserves I (assign i r source)
  storeElement (r : VariableRef) (source index : Value) : i.code = .popElement →
    Preserves I (storeElement i r source index)
  setLight (f : Illumination) (x : GraphicsVariable) (storage : Storage)
    (light : Nat → storage.Elem) : i.code = .illumination f →
    ∀ s, I s → I { s with host := { s.host with
      env := s.host.env.modifyGraphics x (·.write storage s.machine.mask light) } }
  setStates (f : Flow) (states : RunningStates) : i.code = .flow f →
    ∀ s, I s → I { s with host := { s.host with env := { s.host.env with states } } }

variable (hI : Quiet I)
include hI

/-- A service that answers from what the grid holds. -/
theorem preserves_asked (i : Instruction) (n : Nat) (type : ValueType)
    (detail : List Slot → Detail) {ask : List Value → Value → Mask → Serving Grid Value}
    (h : ∀ args out mask, (ask args out mask).Quiet) :
    Preserves I (do let slots ← pop i n; produceAs type (detail slots) slots (asked ask)) :=
  preserves_pop_produceAs hI i n type detail fun _ => Filling.preserves_asked hI h

theorem preserves_matchPattern (i : Instruction) :
    Preserves I (matchPattern i : Exec Grid Unit) := by
  refine preserves_machine.bind fun m => preserves_asked hI i 2 .float _ fun args out mask => ?_
  unfold answerMatch
  split
  · dsimp only
    split
    · exact fun h => Grid.quiet_report _ h
    · exact Grid.quiet_pure _
  · exact Grid.quiet_pure out

theorem preserves_printFormat (i : Instruction) : Preserves I (printFormat i : Exec Grid Unit) := by
  refine (preserves_popCount hI i).bind fun n => (preserves_pop hI i (n + 1)).bind fun slots => ?_
  refine preserves_machine.bind fun m => (preserves_values slots).bind fun vs => ?_
  have hprint (text : Nat → String) (points : List Nat) : Preserves I (do
      for k in points do
        serve (Environment.print (text k) : Serving Grid Unit)
      release slots) :=
    (preserves_forIn (fun k => preserves_serve hI (Grid.quiet_print (text k))) points).bind
      fun _ => preserves_release hI slots
  split
  · exact hprint _ _
  · exact preserves_release hI slots

theorem preserves_string (i : Instruction) (f : StringFunction) :
    Preserves I (string i f : Exec Grid Unit) := by
  cases f with
  | concat =>
    refine (preserves_popCount hI i).bind fun n => (preserves_pop hI i n).bind fun slots => ?_
    exact preserves_produceAs hI _ _ slots (Filling.preserves_return _)
  | format =>
    refine (preserves_popCount hI i).bind fun n => (preserves_pop hI i (n + 1)).bind fun slots => ?_
    refine preserves_produceAs hI _ _ slots fun args out s hs => ?_
    cases args <;> exact hs
  | printf => exact preserves_printFormat hI i
  | matchPattern => exact preserves_matchPattern hI i

theorem preserves_transform (i : Instruction) (type : ValueType) (between : Bool) :
    Preserves I (transform i type between : Exec Grid Unit) := by
  refine (preserves_pop hI i _).bind fun slots => (preserves_values slots).bind fun vs => ?_
  refine preserves_environment.bind fun env => ?_
  dsimp only
  split
  · exact (preserves_serve hI (Grid.quiet_report _)).bind fun _ =>
      preserves_produceAs hI _ _ slots (Filling.preserves_return _)
  · exact preserves_produceAs hI _ _ slots (Filling.preserves_return _)

theorem preserves_transformColor (i : Instruction) (between : Bool) :
    Preserves I (transformColor i between : Exec Grid Unit) := by
  refine (preserves_pop hI i _).bind fun slots => (preserves_values slots).bind fun vs => ?_
  dsimp only
  split
  · exact (preserves_serve hI (Grid.quiet_report _)).bind fun _ =>
      preserves_produceAs hI _ _ slots (Filling.preserves_return _)
  · exact preserves_produceAs hI _ _ slots (Filling.preserves_return _)

/-- What the environment finds is assigned like an operand. -/
theorem preserves_query (i : Instruction) {ask : String → Variable → Serving Grid (Option Variable)}
    (hask : ∀ name v, (ask name v).Quiet)
    (hassign : ∀ r source, i.variableRef = .ok r → Preserves I (assign i r source)) :
    Preserves I (query i ask) := by
  refine preserves_ofExcept_bind fun r hr => (preserves_popValue hI i).bind fun v => ?_
  refine (preserves_readVariable r).bind fun dest => preserves_machine.bind fun m => ?_
  refine (preserves_serve hI (hask _ _)).bind fun found => ?_
  have hp := preserves_pushUniform hI .float (Scalar.ofBool found.isSome : Float32)
  cases found with
  | none => exact hp
  | some v => exact (hassign r _ hr).bind fun _ => hp

theorem preserves_service (i : Instruction) {f : Service} (hc : i.code = .service f)
    (hp : Permits I i) : Preserves I (service i f : Exec Grid Unit) := by
  cases f with
  | transform type between => exact preserves_transform hI i type between
  | transformColor between => exact preserves_transformColor hI i between
  | depth | calculateNormal | area | diffuse | specular | phong | trace =>
    refine preserves_asked hI i _ _ _ fun args out mask => ?_
    split <;> exact fun _ => ⟨rfl, rfl⟩
  | alongU | alongV | derivative =>
    refine preserves_asked hI i _ _ _ fun args out mask => ?_
    split
    · exact Grid.quiet_derivative _ _ _ out mask
    · exact Grid.quiet_pure out
  | texture | surroundings | shadow =>
    refine preserves_asked hI i _ _ _ fun args out mask => ?_
    split
    · exact Grid.quiet_texture _ _ _ out mask
    · exact Grid.quiet_pure out
  | random | ambient =>
    exact preserves_produceAs hI _ _ [] (Filling.preserves_asked hI fun _ _ _ _ => ⟨rfl, rfl⟩)
  | noise | cellNoise => exact preserves_asked hI i _ _ _ fun _ _ _ _ => ⟨rfl, rfl⟩
  | «attribute» =>
    exact preserves_query hI i (fun _ _ _ => ⟨rfl, rfl⟩) fun r source =>
      hp.assign source (.inr (.inl hc)) r
  | option =>
    exact preserves_query hI i (fun _ _ _ => ⟨rfl, rfl⟩) fun r source =>
      hp.assign source (.inr (.inr hc)) r

/-! The light that an illumination sets, under the mask -/

section Light

omit hI
variable {i : Instruction} {f : Illumination} {s : Session Grid}

theorem Permits.illuminance (hp : Permits I i) (hc : i.code = .illumination f) (hs : I s)
    (p axis angle out : Value) : I { s with
      host := ((Grid.illuminance p axis angle out s.machine.mask).run s.host).2 } := by
  unfold Grid.illuminance
  rw [StateT.run_bind, StateT.run_get, pure_bind]
  split
  · exact hs
  · exact hp.setLight f _ _ _ hc _ (hp.setLight f _ _ _ hc s hs)

theorem Permits.illuminate (hp : Permits I i) (hc : i.code = .illumination f) (hs : I s)
    (p : Value) (axis? angle? : Option Value) (out : Value) : I { s with
      host := ((Grid.illuminate p axis? angle? out s.machine.mask).run s.host).2 } :=
  hp.setLight f .lightVector .triple _ hc s hs

theorem Permits.solar (hp : Permits I i) (hc : i.code = .illumination f) (hs : I s)
    (axis? : Option Value) (out : Value) : I { s with
      host := ((Grid.solar axis? out s.machine.mask).run s.host).2 } := by
  cases axis? with
  | none => exact hs
  | some axis => exact hp.setLight f .lightVector .triple _ hc s hs

end Light

theorem preserves_startIlluminance (category : Option String) :
    Preserves I (startIlluminance category : Exec Grid Unit) :=
  (preserves_serve hI fun _ => ⟨rfl, rfl⟩).bind fun _ =>
    (preserves_serve hI fun _ => ⟨rfl, rfl⟩).bind fun _ => preserves_pushUniform hI .float _

theorem preserves_illumination (i : Instruction) {f : Illumination}
    (hc : i.code = .illumination f) (hp : Permits I i) :
    Preserves I (illumination i f : Exec Grid Unit) := by
  cases f with
  | start => exact preserves_startIlluminance hI none
  | startCategory =>
    exact (preserves_popValue hI i).bind fun v => preserves_startIlluminance hI _
  | advance =>
    exact (preserves_serve hI fun _ => ⟨rfl, rfl⟩).bind fun _ => preserves_pushUniform hI .float _
  | illuminance | illuminanceCategory =>
    refine preserves_pop_produceAs hI i _ _ _ fun _ args out s hs => ?_
    dsimp only [asked]
    split
    · exact hp.illuminance hc hs _ _ _ out
    · exact hs
  | illuminate =>
    refine preserves_pop_produceAs hI i _ _ _ fun _ args out s hs => ?_
    dsimp only [asked]
    split
    · rename_i p axis angle
      exact hp.illuminate hc hs p (some axis) (some angle) out
    · exact hs
  | illuminateAll =>
    refine preserves_pop_produceAs hI i _ _ _ fun _ args out s hs => ?_
    dsimp only [asked]
    split
    · exact hp.illuminate hc hs _ none none out
    · exact hs
  | solar =>
    refine preserves_pop_produceAs hI i _ _ _ fun _ args out s hs => ?_
    dsimp only [asked]
    split
    · exact hp.solar hc hs (some _) out
    · exact hs
  | solarAll =>
    exact preserves_produceAs hI _ _ [] fun args out s hs => hp.solar hc hs none out

/-! Variables are written. -/

theorem preserves_popVariable (i : Instruction)
    (hassign : ∀ r source, i.variableRef = .ok r → Preserves I (assign i r source)) :
    Preserves I (popVariable i : Exec Grid Unit) :=
  preserves_ofExcept_bind fun r hr => (preserves_popOne hI i).bind fun slot =>
    preserves_attempt_release hI ((preserves_value slot).bind fun v => hassign r v hr) [slot]

theorem preserves_popElement (i : Instruction)
    (hstore : ∀ r source index, Preserves I (storeElement i r source index)) :
    Preserves I (popElement i : Exec Grid Unit) := by
  refine (preserves_ofExcept _).bind fun r => (preserves_pop hI i 2).bind fun slots => ?_
  refine preserves_attempt_release hI ((preserves_values slots).bind fun vs => ?_) slots
  split
  · exact hstore r _ _
  · exact preserves_pure _

/-! Scopes and jumps -/

omit hI in
theorem preserves_modifyStates (i : Instruction) {f : Flow} (hc : i.code = .flow f)
    (hp : Permits I i) (g : RunningStates → RunningStates) :
    Preserves I (modifyStates g : Exec Grid Unit) := fun s hs => hp.setStates f _ hc s hs

omit hI in
theorem preserves_jumpIf (i : Instruction) (p : RunningStates → Bool) :
    Preserves I (jumpIf i p : Exec Grid (Option Nat)) :=
  (preserves_ofExcept _).bind fun _ => preserves_environment.bind fun _ => preserves_pure _

theorem preserves_flow (i : Instruction) {f : Flow} (hc : i.code = .flow f) (hp : Permits I i) :
    Preserves I (flow i f : Exec Grid (Option Nat)) := by
  have hmodify (g : RunningStates → RunningStates) :=
    preserves_modifyStates i hc hp g
  unfold flow
  cases f with
  | enterScope | selectCurrent | invertScope | clearCurrent =>
    exact (hmodify _).bind fun _ => preserves_pure _
  | leaveScope =>
    refine Preserves.bind (preserves_environment.bind fun env => ?_) fun _ => preserves_pure _
    split
    · exact hmodify _
    · exact preserves_throw _
  | setCurrent =>
    exact ((preserves_popValue hI i).bind fun v => hmodify _).bind fun _ => preserves_pure _
  | jumpNoCurrent | jumpAllCurrent | jumpNoRunning | jumpAllRunning => exact preserves_jumpIf i _
  | jumpFalse | jumpTrue =>
    exact (preserves_ofExcept _).bind fun _ => (preserves_popValue hI i).bind fun _ =>
      preserves_machine.bind fun _ => preserves_pure _
  | jump => exact (preserves_ofExcept _).bind fun _ => preserves_pure _

/-- What survives the moves that an instruction may make survives the instruction. -/
theorem preserves_dispatch (i : Instruction) (hp : Permits I i) :
    Preserves I (dispatch i : Exec Grid (Option Nat)) := by
  have hgo {x : Exec Grid Unit} (hx : Preserves I x) :
      Preserves I (do x; return (none : Option Nat)) := hx.bind fun _ => preserves_pure _
  unfold dispatch
  split
  · exact hgo (preserves_applyRule hI i _)
  cases hc : i.code with
  | dup => exact hgo (preserves_dup hI i)
  | drop =>
    exact (preserves_popOne hI i).bind fun slot => hgo (preserves_release hI [slot])
  | debugBreak => exact hgo (preserves_serve hI (Grid.quiet_note _ _))
  | pushFloat =>
    exact (preserves_ofExcept _).bind fun x => hgo (preserves_pushUniform hI .float x)
  | pushString =>
    exact (preserves_ofExcept _).bind fun x => hgo (preserves_pushUniform hI .string x)
  | pushPoint =>
    exact (preserves_ofExcept _).bind fun x => (preserves_ofExcept _).bind fun y =>
      (preserves_ofExcept _).bind fun z => hgo (preserves_pushUniform hI .point ⟨x, y, z⟩)
  | pushVariable => exact hgo (preserves_pushVariable hI i)
  | pushElement => exact hgo (preserves_pushElement hI i)
  | popVariable =>
    exact hgo (preserves_popVariable hI i fun r source => hp.assign source (.inl hc) r)
  | popElement =>
    exact hgo (preserves_popElement hI i fun r source index => hp.storeElement r source index hc)
  | math f => exact hgo (preserves_spline hI i f)
  | geometry f =>
    cases f <;> first | exact hgo (preserves_faceForward hI i) | exact preserves_pure _
  | string f => exact hgo (preserves_string hI i f)
  | service f => exact hgo (preserves_service hI i hc hp)
  | illumination f => exact hgo (preserves_illumination hI i hc hp)
  | flow f => exact preserves_flow hI i hc hp
  | nop | merge | buildTriple | buildColor | buildMatrix | ofFloat | tripleToColor | colorToTriple
  | arithmetic | dot | cross | negate | compare | and | or | not => exact preserves_pure _

end ShadingMachine.Exec
