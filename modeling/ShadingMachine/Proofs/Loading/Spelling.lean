import ShadingMachine.Proofs.Loading.Reads
import ShadingMachine.Proofs.Loading.Structure

/-! The tokens that a program is read from. Every element of a segment is read from one token, and
every label from a colon and a number, in the order in which they stand in the text. A name that is
declared stands for its local and for nothing else. -/
namespace ShadingMachine

open Text

/-- The number that a token gives to a label. -/
def Text.Token.labelId? (t : Token) : Option Nat :=
  ((Number.numeral? t.text.toList).bind fun n => Number.wholeOf? n.toFloat).filter
    (· < 0x100000000)

/-- The token says the element. -/
def Element.SpelledBy (p : Program) (t : Token) : Element → Prop
  | .opcode name operation =>
    t.lexeme = (.word, name) ∧ Mnemonic.operation? name = some operation
  | .float x =>
    t.kind = .number ∧ ∃ n, Number.numeral? t.text.toList = some n ∧ x = n.toFloat32
  | .string s => t.kind = .string ∧ s = String.ofList (Quoted.unquote t.text.toList)
  | .variable (.declared k) => t.kind = .word ∧ p.localIndex? t.text = some k
  | .variable (.graphics x) => t.lexeme = (.word, x.name) ∧ p.localIndex? t.text = none
  | .label l => t.kind = .number ∧ t.labelId? = some l.id
  | .unresolved id => t.kind = .number ∧ t.labelId? = some id

/-- The tokens of the body of a segment, with the elements that they say and the labels that they
define. -/
inductive Spells (p : Program) : List Token → List Element → List Label → Prop
  | nil : Spells p [] [] []
  | element {ts es labels t e} : Spells p ts es labels → e.SpelledBy p t →
    Loader.endsSegment t.lexeme = false → Spells p (ts ++ [t]) (es ++ [e]) labels
  | label {ts es labels colon t id} : Spells p ts es labels → colon.kind = .colon →
    t.kind = .number → t.labelId? = some id →
    Spells p (ts ++ [colon, t]) es (labels ++ [⟨id, es.length⟩])

theorem Program.localIndex?_congr {p q : Program} (h : p.locals = q.locals) (name : String) :
    p.localIndex? name = q.localIndex? name := by
  unfold localIndex?
  rw [h]

variable {p q : Program} {t : Token} {ts : List Token} {e e' : Element} {es es' : List Element}
  {labels : List Label}

theorem Element.SpelledBy.congr (h : e.SpelledBy p t) (hq : q.locals = p.locals) :
    e.SpelledBy q t := by
  unfold SpelledBy at h ⊢
  simpa only [Program.localIndex?_congr hq] using h

namespace Spells

theorem congr (h : Spells p ts es labels) (hq : q.locals = p.locals) : Spells q ts es labels := by
  induction h with
  | nil => exact .nil
  | element _ he hend ih => exact .element ih (he.congr hq) hend
  | label _ hcolon hkind hid ih => exact .label ih hcolon hkind hid

/-- Each element has a token. -/
theorem exists_token (h : Spells p ts es labels) (he : e ∈ es) :
    ∃ t ∈ ts, e.SpelledBy p t ∧ Loader.endsSegment t.lexeme = false := by
  induction h with
  | nil => cases he
  | @element _ _ _ t _ _ hspelled hend ih =>
    rcases List.mem_append.mp he with he | he
    · obtain ⟨t', ht', h⟩ := ih he
      exact ⟨t', List.mem_append_left _ ht', h⟩
    · rw [List.mem_singleton.mp he]
      exact ⟨t, by simp, hspelled, hend⟩
  | label _ _ _ _ ih =>
    obtain ⟨t', ht', h⟩ := ih he
    exact ⟨t', List.mem_append_left _ ht', h⟩

/-- No token of a body ends the segment. -/
theorem endsSegment_eq_false (h : Spells p ts es labels) :
    ∀ t ∈ ts, Loader.endsSegment t.lexeme = false := by
  induction h with
  | nil => exact List.forall_mem_nil _
  | element _ _ hend ih =>
    exact List.forall_mem_append.mpr ⟨ih, List.forall_mem_singleton.mpr hend⟩
  | label _ hcolon hkind _ ih =>
    refine List.forall_mem_append.mpr ⟨ih, List.forall_mem_cons.mpr ⟨?_, ?_⟩⟩
    · simp [Loader.endsSegment, Token.lexeme, hcolon]
    · simp [Loader.endsSegment, Token.lexeme, hkind]

/-- Each label has the number of a token. -/
theorem labelId_lt (h : Spells p ts es labels) : ∀ l ∈ labels, l.id < 0x100000000 := by
  induction h with
  | nil => exact fun _ hl => by cases hl
  | element _ _ _ ih => exact ih
  | @label _ _ _ _ t id _ _ _ hid ih =>
    intro l hl
    rcases List.mem_append.mp hl with hl | hl
    · exact ih l hl
    · rw [List.mem_singleton.mp hl]
      have hfilter := Option.filter_eq_some_iff.mp hid
      simpa using hfilter.2

/-- A jump is said by the number of its label, before and after the label is looked up. -/
theorem resolve {s : Segment} (h : Spells p ts es labels)
    (hr : List.Forall₂ (Loader.Resolved s) es es') : Spells p ts es' labels := by
  induction h generalizing es' with
  | nil =>
    cases hr
    exact .nil
  | element _ he hend ih =>
    obtain ⟨cs, ds, rfl, hcs, hds⟩ := Instructions.forall₂_split hr
    obtain ⟨e', ds', he', hds', rfl⟩ := List.forall₂_cons_left_iff.mp hds
    cases hds'
    refine .element (ih hcs) ?_ hend
    rcases he' with rfl | ⟨id, l, rfl, hl, rfl⟩
    · exact he
    · have hid : l.id = id := by simpa using List.find?_some hl
      exact ⟨he.1, hid ▸ he.2⟩
  | label _ hcolon hkind hid ih =>
    rw [hr.length_eq]
    exact .label (ih hr) hcolon hkind hid

end Spells

/-- A segment is empty, or it is what stands between its name and the end of the segment. -/
def Program.SpelledIn (p : Program) (kind : SegmentKind) (tokens : List Token) : Prop :=
  p.segment kind = .empty ∨ ∃ before word name body after,
    tokens = before ++ word :: name :: (body ++ after) ∧ word.lexeme = (.word, "segment") ∧
    name.lexeme = (.word, kind.name) ∧ Loader.AtEnd after ∧
    Spells p body (p.segment kind).elements.toList (p.segment kind).labels

theorem Program.SpelledIn.congr {kind : SegmentKind} {tokens : List Token}
    (h : p.SpelledIn kind tokens) (hlocals : q.locals = p.locals)
    (hsegment : q.segment kind = p.segment kind) : q.SpelledIn kind tokens := by
  unfold SpelledIn at h ⊢
  rw [hsegment]
  rcases h with h | ⟨before, word, name, body, after, htokens, hword, hname, hend, hspells⟩
  · exact .inl h
  · exact .inr ⟨before, word, name, body, after, htokens, hword, hname, hend,
      hspells.congr hlocals⟩

namespace Loader

variable {r : Reading} {d : Draft} {start : List Token}

/-- The tokens from `start` up to `rest` say what is in the draft. -/
def Draft.SpelledFrom (p : Program) (start : List Token) (d : Draft) (rest : List Token) : Prop :=
  ∃ used, start = used ++ rest ∧ Spells p used d.segment.elements.toList d.segment.labels

theorem Draft.SpelledFrom.push (h : d.SpelledFrom p start (t :: ts)) (he : e.SpelledBy p t)
    (hend : endsSegment t.lexeme = false) : (d.push e).SpelledFrom p start ts := by
  obtain ⟨used, rfl, hspells⟩ := h
  have hpush : (d.push e).segment.elements.toList = d.segment.elements.toList ++ [e] :=
    Array.toList_push
  refine ⟨used ++ [t], by simp, ?_⟩
  rw [hpush]
  exact .element hspells he hend

theorem reads_labelId (t : Token) :
    Reads (labelId t) r fun id r' => r' = r ∧ t.labelId? = some id := by
  unfold labelId
  dsimp only
  split
  · rename_i id h
    exact reads_pure ⟨rfl, h⟩
  · exact reads_fail _ _

theorem reads_variableRef (p : Program) (op : String) (needsArray : Bool) (ht : t.kind = .word) :
    Reads (variableRef p op needsArray t) r fun ref r' =>
      r' = r ∧ (Element.variable ref).SpelledBy p t := by
  unfold variableRef
  split
  · rename_i k hk
    exact reads_unless fun _ => reads_unless fun _ => reads_pure ⟨rfl, ht, hk⟩
  · rename_i hnone
    split
    · rename_i x hx
      refine reads_unless fun _ => reads_pure ⟨rfl, ?_, hnone⟩
      rw [name_of_ofName? hx, ← ht]
      rfl
    · exact reads_failWith _ _ _

theorem reads_operand (name : String) (code : Opcode) (kind : OperandKind)
    (h : d.SpelledFrom p start r.tokens) :
    Reads (operand p name code d kind) r fun d' r' =>
      d'.SpelledFrom p start r'.tokens ∧ r'.After r := by
  unfold operand
  refine reads_peek.bind fun t r₁ ht => ?_
  obtain ⟨rfl, ht⟩ := ht
  refine reads_atSegmentEnd.bind fun atEnd r₂ hend => reads_unless fun hok => ?_
  obtain ⟨rfl, hend⟩ := hend
  have hfalse : atEnd = false := by
    cases atEnd with
    | false => rfl
    | true => simp at hok
  subst hfalse
  obtain ⟨t', ts, hts, hends⟩ := hend
  have heq : t' = t := by
    rcases ht with ⟨ts', hts'⟩ | ⟨hnil, -⟩
    · rw [hts] at hts'
      exact (List.cons.inj hts').1
    · rw [hts] at hnil
      cases hnil
  subst heq
  refine (reads_skip hts).bind fun _ r₃ hr₃ => ?_
  subst hr₃
  have hafter := Reading.after_next hts
  rw [hts] at h
  split
  · rename_i hkind
    split
    · rename_i n hn
      exact reads_pure ⟨h.push ⟨hkind, n, hn, rfl⟩ hends, hafter⟩
    · exact reads_fail _ _
  · rename_i hkind
    exact reads_pure ⟨h.push ⟨hkind, rfl⟩ hends, hafter⟩
  · rename_i hkind
    refine (reads_variableRef p name code.needsArray hkind).bind fun ref r' href => ?_
    obtain ⟨rfl, hspelled⟩ := href
    exact reads_pure ⟨h.push hspelled hends, hafter⟩
  · rename_i hkind
    refine (reads_labelId t').bind fun id r' hid => ?_
    obtain ⟨rfl, hid⟩ := hid
    have hspelled : (Element.unresolved id).SpelledBy p t' := ⟨hkind, hid⟩
    exact reads_pure ⟨h.push hspelled hends, hafter⟩
  · exact reads_fail _ _

/-- An instruction whose opcode has been taken. -/
theorem reads_instruction (t : Token) (ht : t.kind = .word) (hend : endsSegment t.lexeme = false)
    (h : d.SpelledFrom p start (t :: r.tokens)) :
    Reads (instruction p d t) r fun d' r' =>
      d'.SpelledFrom p start r'.tokens ∧ r'.After r := by
  unfold instruction
  split
  · rename_i operation hoperation
    have hspelled : (Element.opcode t.text operation).SpelledBy p t :=
      ⟨Prod.ext ht rfl, hoperation⟩
    refine reads_foldlM (I := fun (d' : Draft) r' => d'.SpelledFrom p start r'.tokens ∧ r'.After r)
      operation.operands ⟨h.push hspelled hend, .refl r⟩ fun kind _ d' r' hd' => ?_
    refine (reads_operand t.text operation.code kind hd'.1).imp fun d'' r'' hd'' => ?_
    exact ⟨hd''.1, hd''.2.trans hd'.2⟩
  · exact reads_failWith _ _ _

/-- A label whose colon has been taken. -/
theorem reads_labelDefinition {colon : Token} (hcolon : colon.kind = .colon)
    (h : d.SpelledFrom p start (colon :: r.tokens)) :
    Reads (labelDefinition d) r fun d' r' =>
      d'.SpelledFrom p start r'.tokens ∧ r'.After r := by
  refine (reads_expect (by decide) _).bind fun t r₁ ht => ?_
  obtain ⟨hkind, ts, hts, rfl⟩ := ht
  refine (reads_labelId t).bind fun id r₂ hid => reads_unless fun _ => reads_pure ?_
  obtain ⟨rfl, hid⟩ := hid
  refine ⟨?_, Reading.after_next hts⟩
  obtain ⟨used, rfl, hspells⟩ := h
  refine ⟨used ++ [colon, t], ?_, ?_⟩
  · rw [hts, List.append_assoc]
    rfl
  · exact Spells.label hspells hcolon hkind hid

theorem reads_items {n : Nat} (hn : r.tokens.length ≤ n) (h : d.SpelledFrom p start r.tokens) :
    Reads (items n p d) r fun d' r' => d'.SpelledFrom p start r'.tokens ∧ AtEnd r'.tokens := by
  induction n generalizing d r with
  | zero =>
    have hnil : r.tokens = [] := List.eq_nil_of_length_eq_zero (Nat.le_zero.mp hn)
    exact reads_pure ⟨h, by rw [hnil]; exact fun t ht => by cases ht⟩
  | succ n ih =>
    unfold items
    refine reads_atSegmentEnd.bind fun atEnd r₁ hend => ?_
    obtain ⟨rfl, hend⟩ := hend
    cases atEnd with
    | true => exact reads_pure ⟨h, hend⟩
    | false =>
      obtain ⟨t, ts, hts, hends⟩ := hend
      refine reads_peek.bind fun t' r₂ ht' => ?_
      obtain ⟨rfl, ⟨ts', hts'⟩ | ⟨hnil, -⟩⟩ := ht'
      · obtain ⟨rfl, rfl⟩ := List.cons.inj (hts.symm.trans hts')
        refine (reads_skip hts).bind fun _ r₃ hr₃ => ?_
        subst hr₃
        have hlength : ts.length ≤ n := by
          rw [hts, List.length_cons] at hn
          omega
        rw [hts] at h
        split
        · rename_i hcolon
          exact (reads_labelDefinition hcolon h).bind fun d' r' hd' =>
            ih (Nat.le_trans hd'.2.tokens.length_le hlength) hd'.1
        · rename_i hword
          exact (reads_instruction t hword hends h).bind fun d' r' hd' =>
            ih (Nat.le_trans hd'.2.tokens.length_le hlength) hd'.1
        · exact reads_fail _ _
      · rw [hts] at hnil
        cases hnil

theorem reads_resolve (s : Segment) (jump : Nat × Span) :
    Reads (resolve s jump) r fun _ r' => r' = r := by
  unfold resolve
  split
  · split
    · exact reads_pure rfl
    · exact reads_failWith _ _ _
  · exact reads_pure rfl

theorem forall₂_resolved {s s' : Segment} (h : Resolves s s') :
    List.Forall₂ (Resolved s) s.elements.toList s'.elements.toList := by
  refine List.forall₂_iff_get.mpr ⟨h.length.symm, fun k hk hk' => ?_⟩
  have he : s.elements[k]? = some (s.elements.toList.get ⟨k, hk⟩) := by
    rw [← Array.getElem?_toList]
    exact List.getElem?_eq_getElem hk
  have he' : s'.elements[k]? = some (s'.elements.toList.get ⟨k, hk'⟩) := by
    rw [← Array.getElem?_toList]
    exact List.getElem?_eq_getElem hk'
  obtain ⟨e', hget, hresolved⟩ := h.element k _ he
  rw [he'] at hget
  cases hget
  exact hresolved

theorem reads_codeSegment (p : Program) (kind : SegmentKind) :
    Reads (codeSegment p kind) r fun p' r' => ∃ s used, p' = p.setSegment kind s ∧
      r.tokens = used ++ r'.tokens ∧ AtEnd r'.tokens ∧
        Spells p used s.elements.toList s.labels := by
  unfold codeSegment
  refine (reads_get (Q := fun a r' => a = r ∧ r' = r) ⟨rfl, rfl⟩).bind fun r₁ r₂ hr => ?_
  obtain ⟨rfl, rfl⟩ := hr
  refine (reads_items (Nat.le_refl _) ⟨[], rfl, .nil⟩).bind fun d r₃ hd => ?_
  obtain ⟨⟨used, hused, hspells⟩, hend⟩ := hd
  have hall : Reads (d.jumps.foldlM resolve d.segment) r₃ fun _ r' => r' = r₃ :=
    reads_foldlM (I := fun _ r' => r' = r₃) d.jumps rfl fun jump _ s r' hr' =>
      hr' ▸ reads_resolve s jump
  refine ((yields_resolveAll d.jumps d.segment).reads hall).bind fun s r₄ hs => ?_
  obtain ⟨⟨hresolves, -⟩, rfl⟩ := hs
  refine (reads_note _ _).bind fun _ r₅ hr₅ => reads_pure ?_
  rw [hr₅.2]
  exact ⟨s, used, rfl, hused, hend, hresolves.labels ▸ hspells.resolve (forall₂_resolved hresolves)⟩

end Loader

end ShadingMachine
