import ShadingMachine.Pattern.Parse
import ShadingMachine.Proofs.Execution.Argument
import ShadingMachine.Proofs.Execution.Instruction
import ShadingMachine.Proofs.Execution.Reached
import ShadingMachine.Proofs.Loading.Structure
import ShadingMachine.Scene.Bare

/-! A well-formed program never fails for its form. Its locals keep the shape of their declarations,
every place that is come to is that of an instruction or the end, and the instruction finds there
what it reads. -/
namespace ShadingMachine

/-- Errors of a program that is not formed as its instructions read it. -/
def ExecError.IsStructural : ExecError → Prop
  | .malformedElement .. | .unresolvedLabel .. | .positionOutOfRange .. | .unknownLocal _
  | .arrayNeedsIndex _ | .notAnArray _ => True
  | _ => False

theorem ExecError.IsRuntime.not_isStructural {e : ExecError} (h : e.IsRuntime) :
    ¬e.IsStructural := by
  cases e <;> first | exact id | exact h.elim

def Local.isArray : Local → Bool
  | scalar _ => false
  | array _ => true

namespace Locals

/-- There is a local for each declaration, an array where an array is declared. -/
structure Shaped (ds : Array Declaration) (ls : Locals) : Prop where
  size : ls.size = ds.size
  kinds : ∀ (k : Nat) (d : Declaration) (l : Local), ds[k]? = some d → ls[k]? = some l →
    l.isArray = d.arrayLength.isSome

variable {ds : Array Declaration} {ls : Locals}

theorem shaped_ofDeclarations (ds : Array Declaration) : (ofDeclarations ds).Shaped ds where
  size := by simp [ofDeclarations]
  kinds k d l hd hl := by
    simp only [ofDeclarations, Array.getElem?_map, hd, Option.map_some, Option.some.injEq] at hl
    subst hl
    unfold Local.ofDeclaration
    cases d.arrayLength <;> rfl

theorem Shaped.set (h : ls.Shaped ds) {k : Nat} {l l' : Local} (hl : ls[k]? = some l)
    (hk : l'.isArray = l.isArray) : Shaped ds (ls.setIfInBounds k l') where
  size := by simpa using h.size
  kinds j d l'' hd hj := by
    by_cases hjk : k = j
    · subst hjk
      have hlt := (Array.getElem?_eq_some_iff.mp hl).1
      have heq : l'' = l' := by simpa [hlt] using hj.symm
      rw [heq, hk]
      exact h.kinds k d l hd hl
    · exact h.kinds j d l'' hd (by simpa [hjk] using hj)

theorem Shaped.mapVariables (h : ls.Shaped ds) (f : Variable → Variable) :
    Shaped ds (ls.map (Local.mapVariables f)) where
  size := by simpa using h.size
  kinds k d l hd hl := by
    rw [Array.getElem?_map, Option.map_eq_some_iff] at hl
    obtain ⟨l', hl', rfl⟩ := hl
    rw [← h.kinds k d l' hd hl']
    cases l' <;> rfl

/-- Every declaration has its local. -/
theorem Shaped.getElem? (h : ls.Shaped ds) {k : Nat} {d : Declaration} (hd : ds[k]? = some d) :
    ∃ l, ls[k]? = some l ∧ l.isArray = d.arrayLength.isSome := by
  have hlt : k < ls.size := h.size ▸ (Array.getElem?_eq_some_iff.mp hd).1
  exact ⟨ls[k], Array.getElem?_eq_getElem hlt, h.kinds k d _ hd (Array.getElem?_eq_getElem hlt)⟩

theorem Shaped.scalar? (h : ls.Shaped ds) {k : Nat} (hk : VariableRef.Fits ds false (.declared k)) :
    ∃ v, ls.scalar? k = .ok v := by
  obtain ⟨d, hd, harray⟩ := hk
  obtain ⟨l, hl, hkind⟩ := h.getElem? hd
  cases l with
  | scalar v => exact ⟨v, by simp [Locals.scalar?, hl, Local.scalar?]⟩
  | array a => rw [harray] at hkind; cases hkind

theorem Shaped.array? (h : ls.Shaped ds) {k : Nat} (hk : VariableRef.Fits ds true (.declared k)) :
    ∃ a, ls.array? k = .ok a := by
  obtain ⟨d, hd, harray⟩ := hk
  obtain ⟨l, hl, hkind⟩ := h.getElem? hd
  cases l with
  | scalar v => rw [harray] at hkind; cases hkind
  | array a => exact ⟨a, by simp [Locals.array?, hl, Local.array?]⟩

end Locals

namespace Instruction

variable {i : Instruction} {ds : Array Declaration} {isLabel : Element → Prop}

/-- What an instruction reads behind its opcode is there. -/
def Complete (ds : Array Declaration) (isLabel : Element → Prop) (i : Instruction) : Prop :=
  List.Forall₂ (Element.Fits ds isLabel i.code) i.code.operandKinds i.operands

theorem exists_float_of_fits {code : Opcode} {e : Element}
    (h : Element.Fits ds isLabel code .float e) : ∃ x, e = .float x := by
  cases e with
  | float x => exact ⟨x, rfl⟩
  | _ => cases h

theorem exists_string_of_fits {code : Opcode} {e : Element}
    (h : Element.Fits ds isLabel code .string e) : ∃ s, e = .string s := by
  cases e with
  | string s => exact ⟨s, rfl⟩
  | _ => cases h

theorem exists_variable_of_fits {code : Opcode} {e : Element}
    (h : Element.Fits ds isLabel code .variable e) :
    ∃ r, e = .variable r ∧ r.Fits ds code.needsArray := by
  cases e with
  | «variable» r => exact ⟨r, rfl, h⟩
  | _ => cases h

theorem isLabel_of_fits {code : Opcode} {e : Element}
    (h : Element.Fits ds isLabel code .label e) : isLabel e := by
  cases e <;> exact h

theorem float_of_operand {k : Nat} {x : Float32} (h : i.operands[k]? = some (.float x)) :
    i.float k = .ok x := by
  simp [float, operand, h]

/-- An only operand. -/
theorem Complete.single {kind : OperandKind} (h : i.Complete ds isLabel)
    (hk : i.code.operandKinds = [kind]) :
    ∃ e, i.operands = [e] ∧ Element.Fits ds isLabel i.code kind e := by
  unfold Complete at h
  rw [hk] at h
  obtain ⟨e, rest, he, hrest, ho⟩ := List.forall₂_cons_left_iff.mp h
  obtain rfl := List.forall₂_nil_left_iff.mp hrest
  exact ⟨e, ho, he⟩

theorem Complete.variableRef (h : i.Complete ds isLabel)
    (hk : i.code.operandKinds = [.variable]) :
    ∃ r, i.variableRef = .ok r ∧ r.Fits ds i.code.needsArray := by
  obtain ⟨e, ho, he⟩ := h.single hk
  obtain ⟨r, rfl, hr⟩ := exists_variable_of_fits he
  exact ⟨r, by simp [Instruction.variableRef, operand, ho], hr⟩

theorem Complete.float (h : i.Complete ds isLabel) {k : Nat}
    (hk : i.code.operandKinds[k]? = some .float) : ∃ x, i.float k = .ok x := by
  obtain ⟨hlt, hget⟩ := List.getElem?_eq_some_iff.mp hk
  have hlt' : k < i.operands.length := h.length_eq ▸ hlt
  have he := (List.forall₂_iff_get.mp h).2 k hlt hlt'
  simp only [List.get_eq_getElem, hget] at he
  obtain ⟨x, hx⟩ := exists_float_of_fits he
  exact ⟨x, float_of_operand (List.getElem?_eq_some_iff.mpr ⟨hlt', hx⟩)⟩

/-- Reading an instruction does not fail. -/
theorem Complete.not_readError {labels : Segment} {ls : Locals}
    (h : i.Complete ds labels.HasLabel) (hs : ls.Shaped ds) (e : ExecError) :
    ¬i.ReadError ls e := by
  have hvariable (hk : i.code.operandKinds = [.variable]) (hc : i.code.needsArray = false) :
      ¬(i.variableRef = .error e ∨
        ∃ k, i.variableRef = .ok (.declared k) ∧ ls.scalar? k = .error e) := by
    obtain ⟨r, hr, hf⟩ := h.variableRef hk
    rw [hc] at hf
    rintro (he | ⟨k, hk, he⟩)
    · rw [hr] at he
      cases he
    · rw [hr] at hk
      cases hk
      obtain ⟨v, hv⟩ := hs.scalar? hf
      rw [hv] at he
      cases he
  have harray (hk : i.code.operandKinds = [.variable]) (hc : i.code.needsArray = true) :
      ¬(i.variableRef = .error e ∨
        (∃ k, i.variableRef = .ok (.declared k) ∧ ls.array? k = .error e) ∨
        ∃ x, i.variableRef = .ok (.graphics x) ∧ e = .notAnArray x.name) := by
    obtain ⟨r, hr, hf⟩ := h.variableRef hk
    rw [hc] at hf
    rintro (he | ⟨k, hk, he⟩ | ⟨x, hx, -⟩)
    · rw [hr] at he
      cases he
    · rw [hr] at hk
      cases hk
      obtain ⟨a, ha⟩ := hs.array? hf
      rw [ha] at he
      cases he
    · rw [hr] at hx
      cases hx
      cases hf.1
  have htarget (hk : i.code.operandKinds = [.label]) : ¬i.target = .error e := by
    obtain ⟨e', ho, he'⟩ := h.single hk
    obtain ⟨l, rfl, -⟩ := isLabel_of_fits he'
    simp [Instruction.target, ho]
  have hfloat (k : Nat) (hk : i.code.operandKinds[k]? = some .float) : ¬i.float k = .error e := by
    obtain ⟨x, hx⟩ := h.float hk
    simp [hx]
  unfold ReadError
  split
  · rename_i hc
    exact hfloat 0 (by rw [hc]; rfl)
  · rename_i hc
    rintro (he | he | he)
    · exact hfloat 0 (by rw [hc]; rfl) he
    · exact hfloat 1 (by rw [hc]; rfl) he
    · exact hfloat 2 (by rw [hc]; rfl) he
  · rename_i hc
    obtain ⟨e', ho, he'⟩ := h.single (by rw [hc]; rfl)
    obtain ⟨s, rfl⟩ := exists_string_of_fits he'
    simp [Instruction.string, operand, ho]
  all_goals rename_i hc
  · exact hvariable (by rw [hc]; rfl) (by rw [hc]; rfl)
  · exact hvariable (by rw [hc]; rfl) (by rw [hc]; rfl)
  · exact hvariable (by rw [hc]; rfl) (by rw [hc]; rfl)
  · exact hvariable (by rw [hc]; rfl) (by rw [hc]; rfl)
  · exact harray (by rw [hc]; rfl) (by rw [hc]; rfl)
  · exact harray (by rw [hc]; rfl) (by rw [hc]; rfl)
  all_goals first | exact htarget (by rw [hc]; rfl) | exact id

/-- Where a jump goes stands a label of the segment. -/
theorem Complete.target {s : Segment} (h : i.Complete ds s.HasLabel) {target : Nat}
    (ht : i.target = .ok target) : ∃ l ∈ s.labels, l.position = target := by
  unfold Instruction.target at ht
  split at ht
  · rename_i l hl
    cases ht
    obtain ⟨rest, ho⟩ : ∃ rest, i.operands = .label l :: rest := by
      cases ho : i.operands with
      | nil => rw [ho] at hl; cases hl
      | cons e rest =>
        rw [ho] at hl
        cases hl
        exact ⟨rest, rfl⟩
    unfold Complete at h
    rw [ho] at h
    obtain ⟨kind, kinds, hf, -, -⟩ := List.forall₂_cons_right_iff.mp h
    cases kind with
    | label =>
      obtain ⟨l', hl', hfind⟩ := isLabel_of_fits hf
      cases hl'
      exact ⟨l, List.mem_of_find?_eq_some hfind, rfl⟩
    | _ => cases hf
  all_goals cases ht

end Instruction

namespace Exec

variable {ε : Type} [Environment ε]

/-- An instruction that says where to go on goes to its target. -/
theorem ends_dispatch_target (i : Instruction) (s : Session ε) :
    Ends (dispatch i) s (fun target? _ => ∀ target, target? = some target → i.target = .ok target)
      fun _ _ => True := by
  -- All but jumps go on with the next instruction.
  have hnext {β : Type} (x : Exec ε β) {f : β → Exec ε (Option Nat)} {t : Session ε}
      (hf : ∀ b t, Ends (f b) t (fun target? _ => target? = none) fun _ _ => True) :
      Ends (x >>= f) t (fun target? _ => target? = none) fun _ _ => True :=
    ends_bind.mpr ((ends_total x).imp (fun b t _ => hf b t) fun _ _ _ => trivial)
  have hdone (u : Unit) (t : Session ε) : Ends (pure none : Exec ε (Option Nat)) t
      (fun target? _ => target? = none) fun _ _ => True := rfl
  have hnone {x : Exec ε (Option Nat)} {t : Session ε}
      (hx : Ends x t (fun target? _ => target? = none) fun _ _ => True) :
      Ends x t (fun target? _ => ∀ target, target? = some target → i.target = .ok target)
        fun _ _ => True :=
    hx.imp (fun target? _ h target ht => by rw [h] at ht; cases ht) fun _ _ _ => trivial
  have hjumpIf (p : RunningStates → Bool) : Ends (jumpIf i p) s
      (fun target? _ => ∀ target, target? = some target → i.target = .ok target)
      fun _ _ => True := by
    simp only [jumpIf, ends_bind, ends_ofExcept, ends_environment, ends_pure]
    refine ⟨fun target ht target' h => ?_, fun _ _ => trivial⟩
    split at h
    · cases h
      exact ht
    · cases h
  have hjumpOn (want : Bool) : Ends (jumpOn i want) s
      (fun target? _ => ∀ target, target? = some target → i.target = .ok target)
      fun _ _ => True := by
    simp only [jumpOn, ends_bind, ends_ofExcept, ends_machine, ends_pure]
    refine ⟨fun target ht => (ends_total _).imp (fun c t _ target' h => ?_) fun _ _ _ => trivial,
      fun _ _ => trivial⟩
    split at h
    · cases h
      exact ht
    · cases h
  unfold dispatch
  split
  · exact hnone (hnext _ hdone)
  cases hc : i.code with
  | flow f =>
    show Ends (flow i f) _ _ _
    unfold flow
    cases f with
    | enterScope | selectCurrent | invertScope | clearCurrent | leaveScope | setCurrent =>
      exact hnone (hnext _ hdone)
    | jumpNoCurrent | jumpAllCurrent | jumpNoRunning | jumpAllRunning => exact hjumpIf _
    | jumpFalse | jumpTrue => exact hjumpOn _
    | jump =>
      simp only [ends_bind, ends_ofExcept, ends_pure]
      exact ⟨fun target ht target' h => by cases h; exact ht, fun _ _ => trivial⟩
  | pushFloat | pushString | drop => exact hnone (hnext _ fun _ _ => hnext _ hdone)
  | pushPoint =>
    exact hnone (hnext _ fun _ _ => hnext _ fun _ _ => hnext _ fun _ _ => hnext _ hdone)
  | dup | debugBreak | pushVariable | pushElement | popVariable | popElement | math | string
  | service | illumination => exact hnone (hnext _ hdone)
  | geometry f => cases f <;> first | exact hnone (hnext _ hdone) | exact hnone (hdone () _)
  | nop | merge | buildTriple | buildColor | buildMatrix | ofFloat | tripleToColor | colorToTriple
  | arithmetic | dot | cross | negate | compare | and | or | not => exact hnone (hdone () _)

end Exec

namespace Machine

/-- A machine for a well-formed program at a place of an instruction or at the end. -/
structure Safe (p : Program) (m : Machine) : Prop where
  program : m.program = p
  locals : m.locals.Shaped p.locals
  boundary : Segment.Boundary (Element.Fits p.locals (p.segment m.segment).HasLabel)
    (p.segment m.segment).elements.toList m.position

variable {p : Program} {m : Machine}

/-- The parts of a safe machine that an instruction leaves as they are. -/
theorem stable_safe {ε : Type} (p : Program) (kind : SegmentKind) (position : Nat) :
    Exec.Stable fun _ (s : Session ε) => s.machine.program = p ∧ s.machine.segment = kind ∧
      s.machine.position = position ∧ s.machine.locals.Shaped p.locals where
  pop _ h := h
  push h := h
  release h := h
  allocate _ _ h := h
  store _ h := h
  host _ h := h
  write hk _ h := ⟨h.1, h.2.1, h.2.2.1, h.2.2.2.set hk rfl⟩
  writeElement hk _ _ h := ⟨h.1, h.2.1, h.2.2.1, h.2.2.2.set hk rfl⟩
  scatter hk h := ⟨h.1, h.2.1, h.2.2.1, h.2.2.2.set hk rfl⟩

theorem Safe.step {ε : Type} [Environment ε] (hp : p.WellFormed) (h : m.Safe p) (host : Host ε) :
    Exec.Ends Exec.step ⟨m, host⟩ (fun _ t => t.machine.Safe p)
      fun e t => ¬e.IsStructural ∧ t.machine.Safe p := by
  obtain ⟨rfl, hlocals, hboundary⟩ := h
  refine Exec.ends_step ⟨rfl, hlocals, hboundary⟩ (fun e he => ?_) fun i hi => ?_
  · obtain ⟨i, hi, -⟩ := hboundary.instruction? m.segment he
    cases hi
  obtain ⟨i', hi', hposition, -, hcomplete, hnext⟩ := hboundary.instruction? m.segment hi
  cases hi'
  rw [← hposition] at hnext
  have hkeeps := Exec.keeps_dispatch
    (stable_safe m.program m.segment (i.position + 1 + i.operands.length))
    (fun e he => he.not_isStructural)
    (fun held s e hs he => absurd he (Instruction.Complete.not_readError hcomplete hs.2.2.2 e))
    0 (Session.fetched ⟨m, host⟩ i) ⟨rfl, rfl, rfl, hlocals⟩
  have htarget := Exec.ends_dispatch_target i (Session.fetched ⟨m, host⟩ i)
  have hsafe (t : Machine) (ht : t.program = m.program ∧ t.segment = m.segment ∧
      t.position = i.position + 1 + i.operands.length ∧
      t.locals.Shaped m.program.locals) : t.Safe m.program := by
    obtain ⟨hprogram, hsegment, hplace, hshaped⟩ := ht
    refine ⟨hprogram, hshaped, ?_⟩
    rw [hsegment, hplace]
    exact hnext
  refine (Exec.ends_and.mp ⟨hkeeps, htarget⟩).imp (fun target? t ht => ?_)
    fun e t he => ⟨he.1.1, hsafe _ he.1.2⟩
  rw [Exec.ends_proceed]
  cases target? with
  | none => exact hsafe _ ht.1
  | some target =>
    obtain ⟨l, hl, rfl⟩ := Instruction.Complete.target hcomplete (ht.2 target rfl)
    have hlabel := (hp.segment m.segment).boundary l hl
    have hle : ¬(m.program.segment m.segment).length < l.position := Nat.not_lt.mpr hlabel.1
    simp only [if_neg hle]
    refine ⟨ht.1.1, ht.1.2.2.2, ?_⟩
    show Segment.Boundary (Element.Fits _ (m.program.segment t.machine.segment).HasLabel)
      (m.program.segment t.machine.segment).elements.toList l.position
    rw [ht.1.2.1]
    exact hlabel

theorem closed_safe (hp : p.WellFormed) : Closed (Safe p) fun e => ¬e.IsStructural where
  resize n h := ⟨h.program, h.locals.mapVariables _, h.boundary⟩
  argument env hm h := by
    obtain ⟨k, l, rfl, ⟨v, w, source, hv, rfl, -⟩ | ⟨a, b, first, rest, ha, rfl, -⟩⟩ :=
      setArgument_cases hm
    · exact ⟨h.program, h.locals.set hv rfl, h.boundary⟩
    · exact ⟨h.program, h.locals.set ha rfl, h.boundary⟩
  argumentError env he h := by
    rcases setArgument_error he with rfl | ⟨reason, rfl⟩ | ⟨k, hk, hnone⟩
    · exact id
    · exact id
    · obtain ⟨d, hd, -⟩ := Loader.getElem?_of_localIndex? hk
      obtain ⟨l, hl, -⟩ := h.locals.getElem? (h.program ▸ hd)
      rcases hnone with hnone | hnone
      · rw [hd] at hnone
        cases hnone
      · rw [hl] at hnone
        cases hnone
  start kind h := ⟨h.program, h.locals, (hp.segment kind).start⟩
  step host h := h.step hp host
  stackImbalance _ _ := id
  poolImbalance _ _ _ := id
  clear h := ⟨h.program, h.locals, h.boundary⟩
  alone h := ⟨h.program, h.locals, h.boundary⟩
  rejoin n h := ⟨h.program, h.locals.mapVariables _, h.boundary⟩

/-- At a place of an instruction or at the end; an opcode is followed by what is read behind it,
and that by the next opcode or the end. -/
structure AtInstruction (m : Machine) : Prop where
  starts : (m.program.segment m.segment).StartsAt m.position
  operands : ∀ name operation,
    (m.program.segment m.segment).elements[m.position]? = some (.opcode name operation) →
    ∃ i, (m.program.segment m.segment).instruction? m.segment m.position = some (.ok i) ∧
      i.code = operation.code ∧
      i.Complete m.program.locals (m.program.segment m.segment).HasLabel ∧
      (m.program.segment m.segment).StartsAt (m.position + 1 + i.operands.length)

theorem Safe.atInstruction (h : m.Safe p) : m.AtInstruction := by
  obtain ⟨rfl, -, hboundary⟩ := h
  refine ⟨hboundary.startsAt, fun name operation helement => ?_⟩
  have hsome : ∃ found, (m.program.segment m.segment).instruction? m.segment m.position =
      some found := by
    simp [Segment.instruction?, helement]
  obtain ⟨found, hfound⟩ := hsome
  obtain ⟨i, rfl, -, -, hcomplete, hnext⟩ := hboundary.instruction? m.segment hfound
  refine ⟨i, hfound, ?_, hcomplete, hnext.startsAt⟩
  simp only [Segment.instruction?, helement, Option.map_some, Option.some.injEq] at hfound
  split at hfound
  · cases hfound
  · cases hfound
    rfl

theorem Reached.safe {c : Config} (hp : p.WellFormed) (hm : Reached p c m) : m.Safe p :=
  hm.of_closed (closed_safe hp) ⟨rfl, Locals.shaped_ofDeclarations _, hp.code.start⟩

/-- A program that has been loaded never fails for its form, whatever is called and in whatever
environment, and its machine is always at a place of an instruction or at the end. -/
theorem Reached.structurally_safe {text : List Char} {c : Config}
    (hp : (Program.load text).1 = .ok p) (hm : Reached p c m) :
    m.AtInstruction ∧ ∀ {ε : Type} [Environment ε] (host : Host ε) (call : Call),
      Exec.Ends (call.run) ⟨m, host⟩ (fun _ _ => True) fun e _ => ¬e.IsStructural := by
  have hw := Program.wellFormed_of_load hp
  have hsafe := hm.safe hw
  refine ⟨hsafe.atInstruction, fun host call => ?_⟩
  exact (Exec.leaves_call (closed_safe hw) call ⟨m, host⟩ hsafe).imp (fun _ _ _ => trivial)
    fun _ _ he => he.1

/-- A loop that never ends: the jump and its label are found again and again. -/
theorem Reached.structurally_safe_loop :
    let text := "surface\nAQSIS_V 1\nUSES 0\nsegment Code\n:1\nnop\njmp 1\n".toList
    ∃ p, (Program.load text).1 = .ok p ∧
      ((Call.execute 5).run.after
        (⟨.fresh p .standard, .fresh 0 0 [], #[]⟩ : Session Bare)).machine.AtInstruction := by
  intro text
  have hloads : (Program.load text).1.toOption.isSome = true := by decide +kernel
  cases hp : (Program.load text).1 with
  | error e =>
    rw [hp] at hloads
    cases hloads
  | ok p => exact ⟨p, rfl, (structurally_safe hp (.call _ (.execute 5) .fresh)).1⟩

end Machine

end ShadingMachine
