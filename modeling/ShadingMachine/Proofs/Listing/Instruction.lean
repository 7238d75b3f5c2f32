import ShadingMachine.Proofs.Listing.Segment
import ShadingMachine.Proofs.Loading.Accepts
import ShadingMachine.Proofs.Loading.Draft
import ShadingMachine.Proofs.Number.Whole

/-! Reading the labels and the instructions of a listing. -/
namespace ShadingMachine

open Text

/-- The element as it is before its label is looked up. -/
def Element.pending : Element → Element
  | .label l => .unresolved l.id
  | e => e

namespace Loader

theorem Draft.Grows.refl (d : Draft) : d.Grows d [] := ⟨(List.append_nil _).symm, rfl, id⟩

variable {ls : List Lexeme}

theorem accepts_labelId {id : Nat} (hid : id < 0x100000000) {t : Token}
    (ht : t.text = toString id) : Accepts (labelId t) ls ls (· = id) := by
  have hwhole := Number.wholeOf?_toFloat (n := id) (by omega)
  unfold labelId
  simp only [ht, Number.numeral?_toString, Option.bind_some, hwhole, Option.filter_some, hid,
    decide_true, if_true]
  exact accepts_pure rfl

theorem accepts_labelDefinition {d : Draft} {id : Nat} (hid : id < 0x100000000)
    (hnew : d.segment.label? id = none) :
    Accepts (labelDefinition d) ((.number, toString id) :: ls) ls (· = { d with
      segment := { d.segment with labels := d.segment.labels ++ [⟨id, d.segment.length⟩] } }) := by
  refine (accepts_expect _ _ _).bind fun t ht => ?_
  refine (accepts_labelId hid (kind_of_lexeme ht).2).bind fun found hfound => ?_
  subst hfound
  exact accepts_unless (by simp [hnew]) (accepts_pure rfl)

section

variable {p : Program} (hnames : (p.locals.toList.map (·.name)).Nodup)
include hnames

theorem localIndex?_eq_some {k : Nat} {d : Declaration} (hd : p.locals[k]? = some d) :
    p.localIndex? d.name = some k := by
  rw [← Array.getElem?_toList] at hd
  obtain ⟨hk, rfl⟩ := List.getElem?_eq_some_iff.mp hd
  refine List.findIdx?_eq_some_iff_getElem.mpr ⟨hk, by simp, fun j hj => ?_⟩
  have hne := List.pairwise_iff_getElem.mp hnames j k (by rw [List.length_map]; omega)
    (by rwa [List.length_map]) hj
  simpa using hne

theorem accepts_variableRef {r : VariableRef} {op : String} {needsArray : Bool}
    (h : r.Fits p.locals needsArray) {t : Token} (ht : t.text = p.operandListing (.variable r)) :
    Accepts (variableRef p op needsArray t) ls ls (· = r) := by
  unfold variableRef
  cases r with
  | declared k =>
    obtain ⟨d, hd, harray⟩ := h
    have hname : t.text = d.name := by simp only [ht, Program.operandListing, hd]
    simp only [hname, localIndex?_eq_some hnames hd, hd, Option.bind_some, harray]
    refine accepts_unless (by simp) (accepts_unless (by simp) (accepts_pure rfl))
  | graphics x =>
    obtain ⟨harray, hlocals⟩ := h
    have hname : t.text = x.name := ht
    have hnone : p.localIndex? x.name = none := by
      refine List.findIdx?_eq_none_iff.mpr fun d hd => ?_
      simpa using hlocals d (Array.mem_toList_iff.mp hd)
    simp only [hname, hnone, GraphicsVariable.ofName?_name, harray]
    exact accepts_unless (by simp) (accepts_pure rfl)

omit hnames in
theorem text_ne_segment {r : VariableRef} {needsArray : Bool} (h : r.Fits p.locals needsArray)
    (he : (Element.variable r).Listable p.locals) :
    p.operandListing (.variable r) ≠ "segment" := by
  cases r with
  | declared k =>
    obtain ⟨d, hd, -⟩ := h
    simp only [Program.operandListing, hd]
    exact he d hd
  | graphics x =>
    show x.name ≠ "segment"
    cases x <;> decide

omit hnames in
/-- An operand is not taken for the next segment. -/
theorem endsSegment_operand {s : Segment} {code : Opcode} {kind : OperandKind} {e : Element}
    (h : Element.Fits p.locals s.HasLabel code kind e) (he : e.Listable p.locals) :
    endsSegment (p.elementLexeme e) = false := by
  cases kind with
  | float | string => cases e <;> first | rfl | cases h
  | «variable» =>
    cases e with
    | «variable» r => simp [endsSegment, Program.elementLexeme, text_ne_segment h he]
    | _ => cases h
  | label =>
    have hl : s.HasLabel e := by cases e <;> exact h
    obtain ⟨l, rfl, -⟩ := hl
    rfl

theorem accepts_operand {s : Segment} {name : String} {code : Opcode} {d : Draft}
    {kind : OperandKind} {e : Element} (h : Element.Fits p.locals s.HasLabel code kind e)
    (he : e.Listable p.locals) (hids : ∀ l ∈ s.labels, l.id < 0x100000000) :
    Accepts (operand p name code d kind) (p.elementLexeme e :: ls) ls
      fun d' => d.Grows d' [e.pending] := by
  have hend := endsSegment_operand h he
  have hcolon : (p.elementLexeme e).1 ≠ .colon := by
    intro hcolon
    cases e <;> cases hcolon
  refine accepts_peek.bind fun t ht => accepts_atSegmentEnd.bind fun atEnd hatEnd => ?_
  have htcolon : t.kind ≠ .colon := (kind_of_lexeme ht).1 ▸ hcolon
  refine accepts_unless (by simp [hatEnd, hend, htcolon]) ?_
  refine accepts_skip.bind fun _ _ => ?_
  obtain ⟨hkind, htext⟩ := kind_of_lexeme ht
  cases kind with
  | float =>
    cases e with
    | float x =>
      obtain ⟨n, hn, hx⟩ := Option.map_eq_some_iff.mp (Number.numeral?_write he)
      have hnumeral : Number.numeral? t.text.toList = some n := htext ▸ hn
      rw [hkind, hnumeral]
      refine accepts_pure ?_
      rw [hx]
      refine Draft.grows_push ?_
      rintro ⟨_, ⟨⟩⟩
    | _ => cases h
  | string =>
    cases e with
    | string s =>
      have hunquote : String.ofList (Quoted.unquote t.text.toList) = s := by
        rw [htext, Program.operandListing, String.toList_ofList, Quoted.unquote_quote,
          String.ofList_toList]
      rw [hkind, hunquote]
      refine accepts_pure (Draft.grows_push ?_)
      rintro ⟨_, ⟨⟩⟩
    | _ => cases h
  | «variable» =>
    cases e with
    | «variable» r =>
      rw [hkind]
      refine (accepts_variableRef hnames h htext).bind fun r' hr' => ?_
      subst hr'
      refine accepts_pure (Draft.grows_push ?_)
      rintro ⟨_, ⟨⟩⟩
    | _ => cases h
  | label =>
    have hl : s.HasLabel e := by cases e <;> exact h
    obtain ⟨l, rfl, hl⟩ := hl
    have hid := hids l (List.mem_of_find?_eq_some hl)
    rw [hkind]
    refine (accepts_labelId hid htext).bind fun id hid' => ?_
    subst hid'
    exact accepts_pure (Draft.grows_jump d l.id t.span)

theorem accepts_operands {s : Segment} {name : String} {code : Opcode} {kinds : List OperandKind}
    {es : List Element} (h : List.Forall₂ (Element.Fits p.locals s.HasLabel code) kinds es)
    (hes : ∀ e ∈ es, e.Listable p.locals)
    (hids : ∀ l ∈ s.labels, l.id < 0x100000000) (d : Draft) :
    Accepts (kinds.foldlM (operand p name code) d) (es.map p.elementLexeme ++ ls) ls
      fun d' => d.Grows d' (es.map Element.pending) := by
  induction h generalizing d with
  | nil => exact accepts_pure (Draft.Grows.refl d)
  | @cons kind e kinds es hkind _ ih =>
    obtain ⟨he, hes⟩ := List.forall_mem_cons.mp hes
    refine (accepts_operand hnames hkind he hids).bind fun d' hd' => ?_
    exact (ih hes d').imp fun d'' hd'' => hd'.trans hd''

theorem accepts_instruction {s : Segment} {name : String} {operation : Operation}
    {es : List Element} (hn : Mnemonic.operation? name = some operation)
    (h : List.Forall₂ (Element.Fits p.locals s.HasLabel operation.code) operation.operands es)
    (hes : ∀ e ∈ es, e.Listable p.locals)
    (hids : ∀ l ∈ s.labels, l.id < 0x100000000) (d : Draft) {t : Token} (ht : t.text = name) :
    Accepts (instruction p d t) (es.map p.elementLexeme ++ ls) ls
      fun d' => d.Grows d' (.opcode name operation :: es.map Element.pending) := by
  subst ht
  have hopcode : d.Grows (d.push (.opcode t.text operation)) [.opcode t.text operation] :=
    Draft.grows_push nofun
  unfold instruction
  rw [hn]
  exact (accepts_operands hnames h hes hids _).imp fun d' hd' => hopcode.trans hd'

end

end Loader

end ShadingMachine
