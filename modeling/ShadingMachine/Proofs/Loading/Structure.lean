import ShadingMachine.Proofs.Loading.Draft

/-! A text that loads is a well-formed program: the jumps of a segment are resolved when it is
complete, and the declarations are complete before the first segment of instructions. -/
namespace ShadingMachine.Loader

open Text

/-- What looking up a label makes of an element. -/
def Resolved (s : Segment) (e e' : Element) : Prop :=
  e' = e ∨ ∃ id l, e = .unresolved id ∧ s.label? id = some l ∧ e' = .label l

/-- Some jumps of a segment have been resolved. -/
structure Resolves (s s' : Segment) : Prop where
  labels : s'.labels = s.labels
  length : s'.length = s.length
  element : ∀ (k : Nat) (e : Element), s.elements[k]? = some e →
    ∃ e', s'.elements[k]? = some e' ∧ Resolved s e e'

theorem label?_congr {s s' : Segment} (h : s'.labels = s.labels) (id : Nat) :
    s'.label? id = s.label? id := by
  unfold Segment.label?
  rw [h]

theorem Resolves.refl (s : Segment) : Resolves s s := ⟨rfl, rfl, fun _ e he => ⟨e, he, .inl rfl⟩⟩

theorem Resolves.trans {s s' s'' : Segment} (h : Resolves s s') (h' : Resolves s' s'') :
    Resolves s s'' where
  labels := h'.labels.trans h.labels
  length := h'.length.trans h.length
  element k e he := by
    obtain ⟨e', he', hr⟩ := h.element k e he
    obtain ⟨e'', he'', hr'⟩ := h'.element k e' he'
    refine ⟨e'', he'', ?_⟩
    rcases hr' with rfl | ⟨id, l, rfl, hl, rfl⟩
    · exact hr
    · rcases hr with rfl | ⟨id', l', -, -, hl'⟩
      · exact .inr ⟨id, l, rfl, label?_congr h.labels id ▸ hl, rfl⟩
      · cases hl'

/-- The element at a place is not a jump without a label. -/
def SettledAt (s : Segment) (k : Nat) : Prop := ∀ id, s.elements[k]? ≠ some (.unresolved id)

theorem SettledAt.resolves {s s' : Segment} {k : Nat} (h : SettledAt s k) (hr : Resolves s s') :
    SettledAt s' k := by
  intro id hid
  have hk : k < s.length := hr.length ▸ (Array.getElem?_eq_some_iff.mp hid).1
  obtain ⟨e', he', hres⟩ := hr.element k s.elements[k] (Array.getElem?_eq_getElem hk)
  rw [hid] at he'
  cases he'
  rcases hres with he | ⟨_, l, -, -, hl⟩
  · exact h id (he ▸ Array.getElem?_eq_getElem hk)
  · cases hl

theorem yields_resolve (s : Segment) (jump : Nat × Span) :
    Yields (resolve s jump) fun s' => Resolves s s' ∧ SettledAt s' jump.1 := by
  unfold resolve
  split
  · rename_i id hid
    split
    · rename_i l hl
      have hlt := (Array.getElem?_eq_some_iff.mp hid).1
      refine yields_pure ⟨⟨rfl, by simp [Segment.length], fun k e he => ?_⟩, fun id' hid' => ?_⟩
      · by_cases hk : jump.1 = k
        · subst hk
          rw [hid] at he
          cases he
          exact ⟨.label l, by simp [hlt], .inr ⟨id, l, rfl, hl, rfl⟩⟩
        · exact ⟨e, by simpa [hk] using he, .inl rfl⟩
      · simp [hlt] at hid'
    · exact yields_failWith _ _ _
  · rename_i hother
    exact yields_pure ⟨.refl s, fun id hid => hother id hid⟩

theorem yields_resolveAll (jumps : List (Nat × Span)) (s : Segment) :
    Yields (jumps.foldlM resolve s) fun s' =>
      Resolves s s' ∧ ∀ j ∈ jumps, SettledAt s' j.1 := by
  refine yields_foldlM (I := fun done s' => Resolves s s' ∧ ∀ j ∈ done, SettledAt s' j.1)
    jumps ⟨.refl s, fun j hj => by cases hj⟩ fun done s' jump hs' => ?_
  refine (yields_resolve s' jump).imp fun s'' hs'' => ⟨hs'.1.trans hs''.1, fun j hj => ?_⟩
  rcases List.mem_append.mp hj with hj | hj
  · exact (hs'.2 j hj).resolves hs''.1
  · rw [List.mem_singleton.mp hj]
    exact hs''.2

/-- The element of a draft that stands in the finished segment: no jump is left. -/
def Settled (s : Segment) (e e' : Element) : Prop :=
  e' = e ∧ ¬IsUnresolved e ∨ ∃ id l, e = .unresolved id ∧ s.label? id = some l ∧ e' = .label l

theorem Settled.fits {ds : Array Declaration} {s : Segment} {code : Opcode} {kind : OperandKind}
    {e e' : Element} (hf : Element.Fits ds IsUnresolved code kind e) (h : Settled s e e') :
    Element.Fits ds s.HasLabel code kind e' := by
  rcases h with ⟨rfl, hn⟩ | ⟨id, l, rfl, hl, rfl⟩
  · cases kind with
    | float | string | «variable» => cases e' <;> exact hf
    | label => cases e' <;> exact absurd hf hn
  · cases kind with
    | float | string | «variable» => cases hf
    | label =>
      have hid : l.id = id := by simpa using List.find?_some hl
      exact ⟨l, rfl, hid.symm ▸ hl⟩

theorem forall₂_settled {d : Draft} {s : Segment} (hd : d.Covered) (hr : Resolves d.segment s)
    (hs : ∀ j ∈ d.jumps, SettledAt s j.1) :
    List.Forall₂ (Settled s) d.segment.elements.toList s.elements.toList := by
  refine List.forall₂_iff_get.mpr ⟨hr.length.symm, fun k hk hk' => ?_⟩
  have he : d.segment.elements[k]? = some (d.segment.elements.toList.get ⟨k, hk⟩) := by
    rw [← Array.getElem?_toList]
    exact List.getElem?_eq_getElem hk
  have he' : s.elements[k]? = some (s.elements.toList.get ⟨k, hk'⟩) := by
    rw [← Array.getElem?_toList]
    exact List.getElem?_eq_getElem hk'
  obtain ⟨e', hget, hres⟩ := hr.element k _ he
  rw [he'] at hget
  cases hget
  rcases hres with heq | ⟨id, l, hid, hl, hl'⟩
  · refine .inl ⟨heq, ?_⟩
    rintro ⟨id, hid⟩
    obtain ⟨span, hspan⟩ := hd k id (hid ▸ he)
    exact hs _ hspan id (hid ▸ heq ▸ he')
  · exact .inr ⟨id, l, hid, label?_congr hr.labels id ▸ hl, hl'⟩

/-- The segment of a draft when all of its jumps are resolved. -/
theorem Draft.WellFormed.resolves {ds : Array Declaration} {d : Draft} {s : Segment}
    (h : d.WellFormed ds) (hr : Resolves d.segment s) (hs : ∀ j ∈ d.jumps, SettledAt s j.1) :
    s.WellFormed ds := by
  have hsettled := forall₂_settled h.covered hr hs
  have hopcode (name : String) (operation : Operation) (y : Element)
      (hy : Settled s (.opcode name operation) y) : y = .opcode name operation := by
    rcases hy with ⟨rfl, -⟩ | ⟨id, l, hid, -, -⟩
    · rfl
    · cases hid
  refine ⟨?_, hr.labels ▸ h.distinct, hr.labels ▸ h.ascending, fun l hl => ?_⟩
  · exact h.instructions.replace hsettled hopcode fun _ _ _ _ hf hy => hy.fits hf
  · obtain ⟨hle, hi⟩ := h.boundary l (hr.labels ▸ hl)
    refine ⟨hsettled.length_eq ▸ hle, ?_⟩
    exact hi.replace (List.forall₂_drop l.position hsettled) hopcode
      fun _ _ _ _ hf hy => hy.fits hf

theorem yields_codeSegment (p : Program) (kind : SegmentKind) :
    Yields (codeSegment p kind) fun p' => ∃ s, s.WellFormed p.locals ∧ p' = p.setSegment kind s := by
  unfold codeSegment
  refine Yields.after fun r => (yields_items _ p (Draft.wellFormed_empty _)).bind fun d hd => ?_
  refine (yields_resolveAll d.jumps d.segment).bind fun s hs => Yields.after fun _ => ?_
  exact yields_pure ⟨s, hd.resolves hs.1 hs.2, rfl⟩

/-- Declarations that can be told apart, with arrays that are not empty. -/
structure Declared (p : Program) : Prop where
  names : (p.locals.toList.map (·.name)).Nodup
  lengths : ∀ d ∈ p.locals, ∀ n, d.arrayLength = some n → 1 ≤ n

theorem yields_arrayLength : Yields arrayLength fun length => ∀ n, length = some n → 1 ≤ n := by
  unfold arrayLength
  refine Yields.after fun t => ?_
  split
  · refine Yields.after fun _ => Yields.after fun t => ?_
    split
    · refine Yields.after fun _ => yields_pure fun m hm => ?_
      cases hm
      omega
    · exact yields_fail _ _
  · exact yields_pure fun n hn => by cases hn

theorem yields_declaration (p : Program) : Yields (declaration p) fun d =>
    p.localIndex? d.name = none ∧ ∀ n, d.arrayLength = some n → 1 ≤ n := by
  unfold declaration
  refine Yields.after fun r => Yields.after fun found => ?_
  obtain ⟨param, output, t⟩ := found
  dsimp only
  split
  · exact yields_fail _ _
  · refine Yields.after fun t => ?_
    split
    · exact yields_failWith _ _ _
    · refine Yields.after fun t => yields_unless fun hname => ?_
      refine yields_arrayLength.bind fun length hlength => yields_pure ⟨?_, hlength⟩
      simpa using hname

theorem Declared.push {p : Program} (h : Declared p) {d : Declaration}
    (hname : p.localIndex? d.name = none) (hd : ∀ n, d.arrayLength = some n → 1 ≤ n) :
    Declared { p with locals := p.locals.push d } where
  names := by
    rw [Array.toList_push, List.map_append, List.nodup_append]
    refine ⟨h.names, by simp, ?_⟩
    intro a ha b hb
    obtain ⟨d', hd', rfl⟩ := List.mem_map.mp ha
    rw [List.mem_singleton.mp hb]
    exact ne_of_localIndex? hname d' (Array.mem_toList_iff.mp hd')
  lengths d' hd' := by
    rcases Array.mem_push.mp hd' with hd' | rfl
    · exact h.lengths d' hd'
    · exact hd

theorem yields_declarations (n : Nat) {p : Program} (h : Declared p) :
    Yields (declarations n p) fun p' =>
      Declared p' ∧ p'.init = p.init ∧ p'.code = p.code := by
  induction n generalizing p with
  | zero => exact yields_pure ⟨h, rfl, rfl⟩
  | succ n ih =>
    unfold declarations
    refine Yields.after fun atEnd => ?_
    split
    · exact yields_pure ⟨h, rfl, rfl⟩
    · refine (yields_declaration p).bind fun d hd => Yields.after fun _ => ?_
      exact ih (h.push hd.1 hd.2)

/-- A program before its segment of number `next`: the later segments are still empty. -/
structure ReadUpTo (next : Nat) (p : Program) : Prop where
  wellFormed : p.WellFormed
  init : next ≤ 1 → p.init = .empty
  code : next ≤ 2 → p.code = .empty

theorem ReadUpTo.mono {next k : Nat} {p : Program} (h : ReadUpTo next p) (hk : next ≤ k) :
    ReadUpTo k p where
  wellFormed := h.wellFormed
  init hk' := h.init (by omega)
  code hk' := h.code (by omega)

theorem yields_data {p : Program} (n : Nat) (h : ReadUpTo 0 p) :
    Yields (declarations n p) (ReadUpTo 1) := by
  refine (yields_declarations n ⟨h.wellFormed.names, h.wellFormed.lengths⟩).imp fun p' hp' => ?_
  obtain ⟨hd, hinit, hcode⟩ := hp'
  rw [h.init (by omega)] at hinit
  rw [h.code (by omega)] at hcode
  refine ⟨⟨hd.names, hd.lengths, ?_, ?_⟩, fun _ => hinit, fun _ => hcode⟩
  · rw [hinit]
    exact Segment.wellFormed_empty _
  · rw [hcode]
    exact Segment.wellFormed_empty _

theorem yields_init {p : Program} (h : ReadUpTo 1 p) :
    Yields (codeSegment p .init) (ReadUpTo 2) := by
  refine (yields_codeSegment p .init).imp fun p' hp' => ?_
  obtain ⟨s, hs, rfl⟩ := hp'
  have hw := h.wellFormed
  exact ⟨⟨hw.names, hw.lengths, hs, hw.code⟩, fun hk => absurd hk (by omega),
    fun _ => h.code (by omega)⟩

theorem yields_code {k : Nat} {p : Program} (h : ReadUpTo (k + 2) p) :
    Yields (codeSegment p .code) (ReadUpTo (k + 3)) := by
  refine (yields_codeSegment p .code).imp fun p' hp' => ?_
  obtain ⟨s, hs, rfl⟩ := hp'
  have hw := h.wellFormed
  exact ⟨⟨hw.names, hw.lengths, hw.init, hs⟩, fun hk => absurd hk (by omega),
    fun hk => absurd hk (by omega)⟩

theorem yields_segments (n : Nat) {next : Nat} {p : Program} (h : ReadUpTo next p) :
    Yields (segments n next p) Program.WellFormed := by
  induction n generalizing next p with
  | zero => exact yields_pure h.wellFormed
  | succ n ih =>
    unfold segments
    refine Yields.after fun t => ?_
    split
    · exact yields_pure h.wellFormed
    · refine Yields.after fun _ => Yields.after fun t => ?_
      split
      · exact yields_failWith _ _ _
      · rename_i k hk
        refine yields_unless fun hnext => ?_
        have hk := h.mono (Nat.le_of_not_lt hnext)
        match k, hk with
        | 0, hk => exact Yields.after fun r => (yields_data _ hk).bind fun p' hp' => ih hp'
        | 1, hk => exact (yields_init hk).bind fun p' hp' => ih hp'
        | k + 2, hk => exact (yields_code hk).bind fun p' hp' => ih hp'

/-- A header declares nothing. -/
theorem yields_header : Yields header (ReadUpTo 0) := by
  unfold header
  refine Yields.after fun t => ?_
  split
  · refine Yields.after fun _ => Yields.after fun _ => Yields.after fun _ => ?_
    refine Yields.after fun _ => yields_pure ⟨⟨List.nodup_nil, fun d hd => ?_, ?_, ?_⟩, ?_, ?_⟩
    · simp at hd
    · exact Segment.wellFormed_empty _
    · exact Segment.wellFormed_empty _
    · exact fun _ => rfl
    · exact fun _ => rfl
  · exact yields_failWith _ _ _

theorem yields_program : Yields program Program.WellFormed :=
  yields_header.bind fun _ hp => Yields.after fun _ => (yields_segments _ hp).bind fun _ hp' =>
    Yields.after fun _ => yields_pure hp'

end ShadingMachine.Loader

namespace ShadingMachine

/-- Every text that loads is a well-formed program. -/
theorem Program.wellFormed_of_load {text : List Char} {p : Program}
    (h : (Program.load text).1 = .ok p) : p.WellFormed := by
  unfold load at h
  dsimp only at h
  split at h
  · cases h
  · split at h
    · rename_i heq
      cases h
      exact Loader.yields_program _ _ _ heq
    · cases h

end ShadingMachine
