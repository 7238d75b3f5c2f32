import ShadingMachine.Proofs.Execution.Access
import ShadingMachine.Proofs.Execution.Moves

/-! What every move keeps, every instruction keeps, and so does a step. -/
namespace ShadingMachine.Exec

variable {ε α : Type} {I : Multiset Slot → Session ε → Prop} {E : ExecError → Prop}
variable {i : Instruction}

theorem keeps_forIn {x : α → Exec ε Unit} {b : Multiset Slot}
    (hx : ∀ a, Keeps I E (x a) b fun _ => b) (as : List α) :
    Keeps I E (forIn as PUnit.unit fun a _ => do x a; pure (ForInStep.yield PUnit.unit)) b
      fun _ => b := by
  induction as with
  | nil => exact keeps_pure _ fun _ => b
  | cons a as ih =>
    rw [List.forIn_cons]
    intro held s h
    simp only [ends_bind]
    exact (hx a held s h).imp (fun _ t ht => ih held t ht) fun _ _ he => he

theorem keeps_modifyStates [Environment ε] (hI : Stable I) (f : RunningStates → RunningStates)
    (b : Multiset Slot) : Keeps I E (modifyStates f) b fun _ => b := fun _ _ h => hI.host _ h

theorem keeps_jumpIf [Environment ε] {p : RunningStates → Bool}
    (ht : Keeps I E (ofExcept i.target) 0 fun _ => 0) :
    Keeps I E (jumpIf i p) 0 fun _ => 0 :=
  ht.bind fun _ => (keeps_environment 0).bind fun _ => keeps_pure _ fun _ => 0

theorem keeps_startIlluminance [Environment ε] (hI : Stable I) (category : Option String) :
    Keeps I E (startIlluminance category) 0 fun _ => 0 :=
  (keeps_serve hI _ 0).bind fun _ => (keeps_serve hI _ 0).bind fun _ => keeps_pushUniform hI .float _

variable (hI : Stable I) (hE : ∀ e : ExecError, e.IsRuntime → E e)
include hI hE

theorem keeps_concatStrings (i : Instruction) : Keeps I E (concatStrings i) 0 fun _ => 0 :=
  (keeps_popCount hI hE i).bind fun n => (keeps_pop hI hE i n).bind fun slots =>
    keeps_produce hI hE .string slots fun _ _ _ _ _ he => by cases he

theorem keeps_formatString (i : Instruction) : Keeps I E (formatString i) 0 fun _ => 0 := by
  refine (keeps_popCount hI hE i).bind fun n => (keeps_pop hI hE i (n + 1)).bind fun slots => ?_
  refine keeps_produce hI hE .string slots fun args _ _ _ _ he => ?_
  cases args <;> cases he

theorem keeps_asked (type : ValueType) (detail : List Slot → Detail) (n : Nat)
    (ask : List Value → Value → Mask → Serving ε Value) :
    Keeps I E (do let slots ← pop i n; produceAs type (detail slots) slots (asked ask)) 0
      fun _ => 0 :=
  keeps_pop_produce hI hE i n type detail fun _ => Filling.failsAtRun_asked ask

theorem keeps_service₀ (type : ValueType) (ask : Value → Mask → Serving ε Value) :
    Keeps I E (service₀ type ask) 0 fun _ => 0 :=
  keeps_produceAs hI hE type .varying [] (Filling.failsAtRun_asked fun _ => ask)

theorem keeps_applyRule (i : Instruction) (r : Rule) : Keeps I E (applyRule i r) 0 fun _ => 0 := by
  refine (keeps_pop hI hE i r.arity).bind fun slots => ?_
  dsimp only
  split
  · exact keeps_produce hI hE _ slots (Filling.failsAtRun_fill _ i.name id)
  · have hr := keeps_release (E := E) hI slots 0
    rw [Multiset.add_zero] at hr
    exact hr.bind fun _ => keeps_throw (hE (.operandType ..) trivial) _

theorem keeps_spline (i : Instruction) {f : MathFunction} (hf : f.rule? = none) :
    Keeps I E (spline i f) 0 fun _ => 0 := by
  refine (keeps_popCount hI hE i).bind fun n => (keeps_pop hI hE i (n + 1)).bind fun slots => ?_
  have hp : Keeps I E (produceBy i slots (f.spline? n)) slots fun _ => 0 := by
    have hs : (f.spline? n).isSome := by cases f <;> first | rfl | cases hf
    obtain ⟨e, he⟩ := Option.isSome_iff_exists.mp hs
    rw [he]
    exact keeps_produce hI hE _ slots (Filling.failsAtRun_fill e i.name id)
  dsimp only
  split
  · exact (keeps_warn hI _ _).bind fun _ => hp
  · exact hp

theorem keeps_dup (i : Instruction) : Keeps I E (dup i) 0 fun _ => 0 := by
  refine (keeps_machine 0).bind fun m => ?_
  split
  · exact keeps_throw (hE i.underflow trivial) _
  · exact (keeps_value _ 0).bind fun v => keeps_pushData hI v.type v.detail v.data

theorem keeps_jumpOn {want : Bool} (ht : Keeps I E (ofExcept i.target) 0 fun _ => 0) :
    Keeps I E (jumpOn i want) 0 fun _ => 0 :=
  ht.bind fun _ => (keeps_popValue hI hE i).bind fun _ => (keeps_machine 0).bind fun _ =>
    keeps_pure _ fun _ => 0

variable [Environment ε]

theorem keeps_printFormat (i : Instruction) : Keeps I E (printFormat i) 0 fun _ => 0 := by
  refine (keeps_popCount hI hE i).bind fun n => (keeps_pop hI hE i (n + 1)).bind fun slots => ?_
  refine (keeps_machine _).bind fun m => (keeps_values slots _).bind fun vs => ?_
  have hr := keeps_release (E := E) hI slots 0
  rw [Multiset.add_zero] at hr
  split
  · exact (keeps_forIn (fun _ => keeps_serve hI _ _) _).bind fun _ => hr
  · exact hr

theorem keeps_matchPattern (i : Instruction) : Keeps I E (matchPattern i) 0 fun _ => 0 :=
  (keeps_machine 0).bind fun _ => keeps_asked hI hE .float _ 2 _

theorem keeps_string (i : Instruction) (f : StringFunction) :
    Keeps I E (string i f) 0 fun _ => 0 := by
  cases f with
  | concat => exact keeps_concatStrings hI hE i
  | format => exact keeps_formatString hI hE i
  | printf => exact keeps_printFormat hI hE i
  | matchPattern => exact keeps_matchPattern hI hE i

theorem keeps_transform (i : Instruction) (type : ValueType) (between : Bool) :
    Keeps I E (transform i type between) 0 fun _ => 0 := by
  refine (keeps_pop hI hE i _).bind fun slots => (keeps_values slots _).bind fun vs => ?_
  refine (keeps_environment _).bind fun env => ?_
  have hp := fun f => keeps_produce hI hE type slots (Filling.failsAtRun_fill f i.name
    fun args => args.drop (args.length - 1))
  dsimp only
  split
  · exact (keeps_serve hI _ _).bind fun _ => hp _
  · exact hp _

theorem keeps_transformColor (i : Instruction) (between : Bool) :
    Keeps I E (transformColor i between) 0 fun _ => 0 := by
  refine (keeps_pop hI hE i _).bind fun slots => (keeps_values slots _).bind fun vs => ?_
  have hp := fun f => keeps_produce hI hE .color slots (Filling.failsAtRun_fill f i.name
    fun args => args.drop (args.length - 1))
  dsimp only
  split
  · exact (keeps_serve hI _ _).bind fun _ => hp _
  · exact hp _

theorem keeps_query (hr : Readable I E i) (hc : i.code = .service .attribute ∨
    i.code = .service .option) (ask : String → Variable → Serving ε (Option Variable)) :
    Keeps I E (query i ask) 0 fun _ => 0 := by
  unfold query
  refine keeps_ofExcept_bind (hr.keeps_ofExcept fun _ e he => ?_) fun r hi => ?_
  · rcases hc with hc | hc <;> simp only [Instruction.ReadError, hc] <;> exact .inl he
  · have hs : ScalarRead i r := fun _ e k hk he => by
      rcases hc with hc | hc <;> simp only [Instruction.ReadError, hc]
      all_goals exact .inr ⟨k, hk ▸ hi, he⟩
    refine (keeps_popValue hI hE i).bind fun v => (keeps_readVariable hE hr hs).bind fun dest => ?_
    refine (keeps_machine 0).bind fun m => (keeps_serve hI _ 0).bind fun found => ?_
    have hp := keeps_pushUniform (E := E) hI .float (Scalar.ofBool found.isSome : Float32)
    cases found with
    | none => exact hp
    | some v => exact (keeps_assign hI hE hr hs _).bind fun _ => hp

theorem keeps_service (hr : Readable I E i) {f : Service} (hc : i.code = .service f) :
    Keeps I E (service i f) 0 fun _ => 0 := by
  cases f with
  | transform type between => exact keeps_transform hI hE i type between
  | transformColor between => exact keeps_transformColor hI hE i between
  | depth | calculateNormal | area | alongU | alongV | derivative | diffuse | specular | phong
  | texture | surroundings | shadow | trace => exact keeps_asked hI hE _ _ _ _
  | random | ambient => exact keeps_service₀ hI hE _ _
  | noise type n | cellNoise type n => exact keeps_asked hI hE type _ _ _
  | «attribute» => exact keeps_query hI hE hr (.inl hc) _
  | option => exact keeps_query hI hE hr (.inr hc) _

theorem keeps_illumination (i : Instruction) (f : Illumination) :
    Keeps I E (illumination i f) 0 fun _ => 0 := by
  cases f with
  | start => exact keeps_startIlluminance hI none
  | startCategory =>
    exact (keeps_popValue hI hE i).bind fun v => keeps_startIlluminance hI _
  | advance => exact (keeps_serve hI _ 0).bind fun _ => keeps_pushUniform hI .float _
  | illuminance | illuminanceCategory | illuminate | illuminateAll | solar =>
    exact keeps_asked hI hE _ _ _ _
  | solarAll => exact keeps_service₀ hI hE _ _

theorem keeps_faceForward (i : Instruction) : Keeps I E (faceForward i) 0 fun _ => 0 := by
  refine keeps_pop_bind hI hE i fun slots hn => (keeps_environment _).bind fun env => ?_
  split
  · rename_i reference hg
    obtain ⟨slot, rest, rfl⟩ := List.exists_cons_of_length_eq_add_one hn
    exact keeps_produceAs hI hE _ _ _ (Filling.failsAtRun_fill _ i.name fun args =>
      args ++ [reference.toValue])
  · have hr := keeps_release (E := E) hI slots 0
    rw [Multiset.add_zero] at hr
    exact hr.bind fun _ => keeps_throw (hE (.missingGraphicsVariable _) trivial) _

theorem keeps_leaveScope (i : Instruction) : Keeps I E (leaveScope i) 0 fun _ => 0 := by
  refine (keeps_environment 0).bind fun env => ?_
  split
  · exact keeps_modifyStates hI _ 0
  · exact keeps_throw (hE (.stateUnderflow ..) trivial) _

theorem keeps_flow (hr : Readable I E i) {f : Flow} (hc : i.code = .flow f) :
    Keeps I E (flow i f) 0 fun _ => 0 := by
  have ht (hj : f ∈ [Flow.jumpNoCurrent, .jumpAllCurrent, .jumpNoRunning, .jumpAllRunning,
      .jumpFalse, .jumpTrue, .jump]) : Keeps I E (ofExcept i.target) 0 fun _ => 0 := by
    refine hr.keeps_ofExcept fun _ e he => ?_
    simp only [Instruction.ReadError, hc]
    cases f <;> first | exact he | simp at hj
  unfold flow
  cases f with
  | enterScope | selectCurrent | invertScope | clearCurrent =>
    exact (keeps_modifyStates hI _ 0).bind fun _ => keeps_pure _ fun _ => 0
  | leaveScope => exact (keeps_leaveScope hI hE i).bind fun _ => keeps_pure _ fun _ => 0
  | setCurrent =>
    exact ((keeps_popValue hI hE i).bind fun _ => keeps_modifyStates hI _ 0).bind fun _ =>
      keeps_pure _ fun _ => 0
  | jumpNoCurrent | jumpAllCurrent | jumpNoRunning | jumpAllRunning =>
    exact keeps_jumpIf (ht (by simp))
  | jumpFalse | jumpTrue => exact keeps_jumpOn hI hE (ht (by simp))
  | jump => exact (ht (by simp)).bind fun _ => keeps_pure _ fun _ => 0

theorem keeps_dispatch (hr : Readable I E i) : Keeps I E (dispatch i) 0 fun _ => 0 := by
  have hgo {x : Exec ε Unit} (hx : Keeps I E x 0 fun _ => 0) :
      Keeps I E (do x; return (none : Option Nat)) 0 fun _ => 0 :=
    hx.bind fun _ => keeps_pure _ fun _ => 0
  unfold dispatch
  split
  · exact hgo (keeps_applyRule hI hE i _)
  rename_i hrule
  cases hc : i.code with
  | nop => exact keeps_pure _ fun _ => 0
  | dup => exact hgo (keeps_dup hI hE i)
  | drop =>
    exact (keeps_popOne hI hE i).bind fun slot => (keeps_release hI [slot] 0).bind fun _ =>
      keeps_pure _ fun _ => 0
  | debugBreak => exact hgo (keeps_serve hI _ 0)
  | pushFloat =>
    refine (hr.keeps_ofExcept fun _ e he => ?_).bind fun x => hgo (keeps_pushUniform hI .float x)
    simp only [Instruction.ReadError, hc]; exact he
  | pushString =>
    refine (hr.keeps_ofExcept fun _ e he => ?_).bind fun s => hgo (keeps_pushUniform hI .string s)
    simp only [Instruction.ReadError, hc]; exact he
  | pushPoint =>
    refine (hr.keeps_ofExcept fun _ e he => ?_).bind fun x =>
      (hr.keeps_ofExcept fun _ e he => ?_).bind fun y =>
      (hr.keeps_ofExcept fun _ e he => ?_).bind fun z => hgo (keeps_pushUniform hI .point ⟨x, y, z⟩)
    · simp only [Instruction.ReadError, hc]; exact .inl he
    · simp only [Instruction.ReadError, hc]; exact .inr (.inl he)
    · simp only [Instruction.ReadError, hc]; exact .inr (.inr he)
  | pushVariable => exact hgo (keeps_pushVariable hI hE hr hc)
  | pushElement => exact hgo (keeps_pushElement hI hE hr hc)
  | popVariable => exact hgo (keeps_popVariable hI hE hr hc)
  | popElement => exact hgo (keeps_popElement hI hE hr hc)
  | math f =>
    rw [hc] at hrule
    exact hgo (keeps_spline hI hE i hrule)
  | geometry f =>
    rw [hc] at hrule
    cases f <;> first | exact hgo (keeps_faceForward hI hE i) | cases hrule
  | string f => exact hgo (keeps_string hI hE i f)
  | service f => exact hgo (keeps_service hI hE hr hc)
  | illumination f => exact hgo (keeps_illumination hI hE i f)
  | flow f => exact keeps_flow hI hE hr hc
  | merge | buildTriple | buildColor | buildMatrix | ofFloat | tripleToColor | colorToTriple
  | arithmetic | dot | cross | negate | compare | and | or | not =>
    exact keeps_pure _ fun _ => 0

end ShadingMachine.Exec
