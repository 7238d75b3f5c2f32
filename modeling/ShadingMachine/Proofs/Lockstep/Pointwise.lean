import ShadingMachine.Machine.Strings
import ShadingMachine.Proofs.Lockstep.Values

/-! Results that are computed point by point without the environment: by an elementwise function, by
joining strings, or by a format. Each says how many operands it takes, when it refuses them, and
what an element of the result is; from operands that agree at the active points it computes results
that agree there. -/
namespace ShadingMachine

/-- Values of one type and storage that have the same element at two points. -/
structure Value.SameElement (i j : Nat) (v w : Value) : Prop where
  type : v.type = w.type
  storage : v.data.storage = w.data.storage
  get (s : Storage) : v.get s i = w.get s j

/-- How a result is filled without the environment: operands may be refused for their types and
storages, and each element is a function of the operands' elements at its point. -/
structure PointwiseFilling (arity : Nat) (type : ValueType)
    (fill : List Value → Value → Mask → Except ExecError Value) where
  check : List Value → Except ExecError Unit
  element : List Value → Nat → type.storage.Elem
  fill_eq {args : List Value} {out : Value} {mask : Mask} : args.length = arity →
    out.type = type → out.data.storage = type.storage →
    fill args out mask = (check args).map fun _ => out.write type.storage mask (element args)
  check_congr {vs ws : List Value} : List.Forall₂
    (fun v w => v.type = w.type ∧ v.data.storage = w.data.storage) vs ws → check vs = check ws
  element_congr {vs ws : List Value} {i j : Nat} :
    List.Forall₂ (Value.SameElement i j) vs ws → element vs i = element ws j

namespace PointwiseFilling

variable {arity : Nat} {type : ValueType} {fill : List Value → Value → Mask → Except ExecError Value}
  {D : Detail → Detail → Prop} {P : Nat → Prop} {n : Nat}

/-- Operands that agree at the active points give results that agree there, or are refused for the
same reason. A result is uniform only if all operands are. -/
theorem agrees (F : PointwiseFilling arity type fill) (hD : Detail.Allows D) (mask : Mask)
    {vs ws : List Value} (hvs : List.Forall₂ (Value.Agrees D P) vs ws) (hlength : vs.length = arity)
    (hP : ∀ i ∈ mask.ones, i < n → P i) {out out' : Value} (hout : out.IsShaped n)
    (hout' : out'.IsShaped n) (htype : out.type = type) (htype' : out'.type = type)
    (hdetail : D out.detail out'.detail)
    (huniform : out.detail = .uniform → ∀ v ∈ vs, v.detail = .uniform)
    (huniform' : out'.detail = .uniform → ∀ w ∈ ws, w.detail = .uniform) :
    SameOutcome (fun v w => v.Agrees D (fun i => i ∈ mask.ones ∧ i < n) w ∧
        out.SameKind v ∧ out'.SameKind w) (fill vs out mask) (fill ws out' mask) := by
  subst htype
  rw [F.fill_eq hlength rfl hout.storage,
    F.fill_eq (hvs.length_eq ▸ hlength) htype' (htype' ▸ hout'.storage),
    F.check_congr (hvs.imp fun _ _ h => ⟨h.type, h.storage⟩)]
  have hsame {i : Nat} (hi : P i) : List.Forall₂ (Value.SameElement i i) vs ws :=
    hvs.imp fun _ _ h => ⟨h.type, h.storage, h.get i hi⟩
  cases F.check ws with
  | error e => exact .error e
  | ok u =>
    refine .ok ⟨hout.agrees_write hout' htype'.symm hdetail mask (fun hu hu' => ?_)
      fun i hi hn => ?_, out.sameKind_write .., out'.sameKind_write ..⟩
    · rw [Value.Agrees.eq_of_uniform hvs (huniform hu) (huniform' hu')]
    · cases hd' : out'.detail with
      | varying =>
        cases hd : out.detail with
        | varying => exact F.element_congr (hsame (hP i hi hn))
        | uniform =>
          -- uniform operands have the same elements at the first point as at any other
          refine F.element_congr (List.forall₂_iff_get.mpr ?_)
          obtain ⟨hlen, hget⟩ := List.forall₂_iff_get.mp (hsame (hP i hi hn))
          refine ⟨hlen, fun k hk hk' => ?_⟩
          have hk₀ := huniform hd _ (List.get_mem vs ⟨k, hk⟩)
          have h := hget k hk hk'
          exact ⟨h.type, h.storage, fun s => (Value.get_of_uniform hk₀ s 0 i).trans (h.get s)⟩
      | uniform =>
        have hd : out.detail = .uniform := hD.uniform (hd' ▸ hdetail)
        rw [hd, Value.Agrees.eq_of_uniform hvs (huniform hd) (huniform' hd')]

end PointwiseFilling

namespace Elementwise

theorem checkOperands_of_storage (op : String) (inputs : List Storage) {vs ws : List Value}
    (h : List.Forall₂ (fun v w => v.type = w.type ∧ v.data.storage = w.data.storage) vs ws) :
    checkOperands op inputs vs = checkOperands op inputs ws := by
  induction inputs generalizing vs ws with
  | nil => rfl
  | cons s inputs ih =>
    cases h with
    | nil => rfl
    | cons hv hvs =>
      simp only [checkOperands, hv.2, hv.1]
      split
      · exact ih hvs
      · rfl

/-- Applying a function, whose result has the storage of its type or is refused. -/
def pointwiseFilling (f : Elementwise) (op : String) (arity : Nat) :
    PointwiseFilling arity f.type (f.fill op) :=
  if hs : f.type.storage = f.output then
    { check := checkOperands op f.inputs
      element := fun args i => hs ▸ Curried.applyAt f.inputs f.apply args i
      fill_eq := by
        intro args out mask _ _ hout
        obtain ⟨type, inputs, output, apply⟩ := f
        obtain rfl : type.storage = output := hs
        unfold fill
        rw [if_neg (not_not.mpr hout)]
        cases checkOperands op inputs args <;> rfl
      check_congr := checkOperands_of_storage op f.inputs
      element_congr := fun h => by rw [Curried.applyAt_congr f.apply (h.imp fun _ _ hv => hv.get)] }
  else
    { check := fun args => do
        checkOperands op f.inputs args
        throw (.operandType op f.output f.type)
      element := fun _ _ => f.type.storage.initial
      fill_eq := by
        intro args out mask _ htype hout
        unfold fill
        rw [if_pos (hout.trans_ne hs), htype]
        cases checkOperands op f.inputs args <;> rfl
      check_congr := fun h => by rw [checkOperands_of_storage op f.inputs h]
      element_congr := fun _ => rfl }

end Elementwise

namespace Format

variable {i j : Nat}

theorem convert_congr {v w : Value} (h : v.SameElement i j w) (letter : Char) :
    convert letter v i = convert letter w j := by
  have htext : v.text i = w.text j := by
    have hv := h.get v.data.storage
    unfold Value.get at hv
    unfold Value.text Data.text
    rw [hv, h.storage]
  unfold convert Value.getFloat
  rw [← h.storage, h.get .float, htext]

theorem expand_congr (cs : List Char) {vs ws : List Value}
    (h : List.Forall₂ (Value.SameElement i j) vs ws) : expand cs vs i = expand cs ws j := by
  fun_induction expand cs vs i generalizing ws with
  | case1 rest args i ih =>
    rw [ih h]
    cases ws <;> simp [expand]
  | case2 c rest i hc hconv v vs ih =>
    obtain ⟨w, ws, hv, hvs, rfl⟩ := List.forall₂_cons_left_iff.mp h
    simp [expand, hc, hconv, convert_congr hv, ih hvs]
  | case3 c rest i hc hconv ih =>
    obtain rfl := List.forall₂_nil_left_iff.mp h
    simp [expand, hc, hconv, ih .nil]
  | case4 c rest args i hc hconv ih =>
    rw [ih h]
    cases ws <;> simp [expand, hc, hconv]
  | case5 c rest args i hc ih => rw [ih h, expand.eq_3 _ _ _ _ hc]
  | case6 args i => simp

theorem write_congr {v w : Value} (hv : v.SameElement i j w) {vs ws : List Value}
    (h : List.Forall₂ (Value.SameElement i j) vs ws) : write v vs i = write w ws j := by
  unfold write Value.getString
  rw [hv.get .string, expand_congr _ h]

end Format

namespace Exec

/-- Joining strings. -/
def joinFilling (arity : Nat) : PointwiseFilling arity .string fun args out mask =>
    .ok (out.write .string mask fun k => String.join (args.map (·.getString k))) where
  check _ := .ok ()
  element args k := String.join (args.map (·.getString k))
  fill_eq _ _ _ := rfl
  check_congr _ := rfl
  element_congr {vs ws i j} h := by
    have hmap : vs.map (·.getString i) = ws.map (·.getString j) := by
      induction h with
      | nil => rfl
      | cons hv _ ih => rw [List.map_cons, List.map_cons, ih, Value.getString, hv.get]; rfl
    rw [hmap]

/-- A format, the first operand, is written with the others. -/
def fillFormat (args : List Value) (out : Value) (mask : Mask) : Except ExecError Value :=
  match args with
  | format :: args => .ok (out.write .string mask (Format.write format args))
  | [] => .ok out

theorem formatString_eq {ε : Type} (i : Instruction) : (formatString i : Exec ε Unit) = (do
    let n ← popCount i
    let slots ← pop i (n + 1)
    produce .string slots fun args out mask => return fillFormat args out mask) := by
  unfold formatString
  congr
  funext n
  congr
  funext slots
  congr
  funext args out mask
  cases args <;> rfl

/-- Writing a format. -/
def formatFilling (n : Nat) : PointwiseFilling (n + 1) .string fillFormat where
  check _ := .ok ()
  element args k :=
    match args with
    | format :: args => Format.write format args k
    | [] => ""
  fill_eq {args out mask} hlength _ _ := by
    cases args with
    | nil => cases hlength
    | cons format args => rfl
  check_congr _ := rfl
  element_congr h := by
    cases h with
    | nil => rfl
    | cons hv hvs => exact Format.write_congr hv hvs

end Exec

end ShadingMachine
