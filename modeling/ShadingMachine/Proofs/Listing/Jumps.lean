import ShadingMachine.Proofs.Listing.Items

/-! The jumps of a segment that is read back find the labels they had. -/
namespace ShadingMachine.Loader

open Text

variable {α β : Type} {ls : List Lexeme} {p : Program} {s s' : Segment} {d : Draft} {l : Lexeme}

theorem Accepts.yields {x : Load α} {before after : List Lexeme} {P Q : α → Prop}
    (hx : Accepts x before after P) (hq : Yields x Q) :
    Accepts x before after fun a => P a ∧ Q a := by
  intro r hr
  obtain ⟨a, r', hok, hr', ha⟩ := hx r hr
  exact ⟨a, r', hok, hr', ha, hq r a r' hok⟩

theorem accepts_foldlM {f : β → α → Load β} {I : β → Prop} (as : List α) {b : β} (h₀ : I b)
    (hf : ∀ b a, I b → Accepts (f b a) ls ls I) : Accepts (as.foldlM f b) ls ls I := by
  induction as generalizing b with
  | nil => exact accepts_pure h₀
  | cons a as ih => exact (hf b a h₀).bind fun b' hb' => ih hb'

/-- A jump of the segment is resolved, if its label is defined. -/
theorem accepts_resolve {t : Segment} (ht : Resolves s t)
    (hs : ∀ (k id : Nat), s.elements[k]? = some (.unresolved id) → (s.label? id).isSome)
    (jump : Nat × Span) : Accepts (resolve t jump) ls ls (Resolves s) := by
  have hok : Accepts (resolve t jump) ls ls fun _ => True := by
    unfold resolve
    split
    · rename_i id hid
      have hlt : jump.1 < s.length := ht.length ▸ (Array.getElem?_eq_some_iff.mp hid).1
      have hget : s.elements[jump.1]? = some s.elements[jump.1] := Array.getElem?_eq_getElem hlt
      have hsome : (t.label? id).isSome := by
        obtain ⟨e', he', hresolved⟩ := ht.element jump.1 _ hget
        rw [hid] at he'
        cases he'
        rcases hresolved with heq | ⟨id', x, -, -, hx⟩
        · rw [label?_congr ht.labels]
          exact hs jump.1 id (by rw [hget, heq])
        · cases hx
      obtain ⟨x, hx⟩ := Option.isSome_iff_exists.mp hsome
      rw [hx]
      exact accepts_pure trivial
    · exact accepts_pure trivial
  exact (hok.yields (yields_resolve t jump)).imp fun t' ht' => ht.trans ht'.2.1

theorem accepts_resolveAll
    (hs : ∀ (k id : Nat), s.elements[k]? = some (.unresolved id) → (s.label? id).isSome)
    (jumps : List (Nat × Span)) :
    Accepts (jumps.foldlM resolve s) ls ls fun s' =>
      Resolves s s' ∧ ∀ j ∈ jumps, SettledAt s' j.1 := by
  have hfold : Accepts (jumps.foldlM resolve s) ls ls (Resolves s) :=
    accepts_foldlM jumps (.refl s) fun t jump ht => accepts_resolve ht hs jump
  exact (hfold.yields (yields_resolveAll jumps s)).imp fun _ h => h.2

/-- An element as it stands in a finished segment. -/
structure Final (s : Segment) (e : Element) : Prop where
  resolved : ¬IsUnresolved e
  label : ∀ x, e = .label x → s.label? x.id = some x

theorem final_of_fits {ds : Array Declaration} {code : Opcode} {kind : OperandKind} {e : Element}
    (h : Element.Fits ds s.HasLabel code kind e) : Final s e := by
  cases kind with
  | float | string | «variable» =>
    cases e <;> first | exact False.elim h | exact ⟨nofun, nofun⟩
  | label =>
    have hl : s.HasLabel e := by cases e <;> exact h
    obtain ⟨x, rfl, hx⟩ := hl
    exact ⟨nofun, fun y hy => by cases hy; exact hx⟩

theorem final_of_instructions {ds : Array Declaration} {es : List Element}
    (h : Instructions (Element.Fits ds s.HasLabel) es) : ∀ e ∈ es, Final s e := by
  induction h with
  | nil => simp
  | cons _ ho _ ih =>
    refine List.forall_mem_cons.mpr ⟨⟨nofun, nofun⟩, List.forall_mem_append.mpr ⟨?_, ih⟩⟩
    intro e he
    obtain ⟨kind, -, hkind⟩ := exists_of_forall₂ ho e he
    exact final_of_fits hkind

theorem eq_of_settled {e e' : Element} (he : Final s e) (hlabels : s'.labels = s.labels)
    (h : Settled s' e.pending e') : e' = e := by
  cases e with
  | label x =>
    rcases h with ⟨-, hn⟩ | ⟨id, y, hid, hy, rfl⟩
    · exact absurd ⟨_, rfl⟩ hn
    · cases hid
      rw [label?_congr hlabels, he.label x rfl] at hy
      cases hy
      rfl
  | unresolved id => exact absurd ⟨id, rfl⟩ he.resolved
  | _ =>
    rcases h with ⟨rfl, -⟩ | ⟨id, y, hid, -, -⟩
    · rfl
    · cases hid

theorem eq_of_forall₂_settled {es es' : List Element} (hlabels : s'.labels = s.labels)
    (h : List.Forall₂ (fun e e' => Settled s' e.pending e') es es') (hes : ∀ e ∈ es, Final s e) :
    es' = es := by
  induction h with
  | nil => rfl
  | cons he _ ih =>
    obtain ⟨hfinal, hes⟩ := List.forall_mem_cons.mp hes
    rw [eq_of_settled hfinal hlabels he, ih hes]

/-- Every jump of a draft that was read from a listing has its label. -/
theorem isSome_label? (hs : Instructions (Element.Fits p.locals s.HasLabel) s.elements.toList)
    (helements : d.segment.elements.toList = s.elements.toList.map Element.pending)
    (hlabels : d.segment.labels = s.labels) (k id : Nat)
    (hk : d.segment.elements[k]? = some (.unresolved id)) : (d.segment.label? id).isSome := by
  rw [← Array.getElem?_toList, helements, List.getElem?_map] at hk
  obtain ⟨e, he, hid⟩ := Option.map_eq_some_iff.mp hk
  have hfinal := final_of_instructions hs e (List.mem_of_getElem? he)
  cases e with
  | label x =>
    cases hid
    rw [label?_congr hlabels, hfinal.label x rfl]
    rfl
  | unresolved id' => exact absurd ⟨id', rfl⟩ hfinal.resolved
  | _ => cases hid

theorem eq_of_resolves (hs : Instructions (Element.Fits p.locals s.HasLabel) s.elements.toList)
    (helements : d.segment.elements.toList = s.elements.toList.map Element.pending)
    (hlabels : d.segment.labels = s.labels) (hcovered : d.Covered) (hr : Resolves d.segment s')
    (hsettled : ∀ j ∈ d.jumps, SettledAt s' j.1) : s' = s := by
  have hlabels' : s'.labels = s.labels := hr.labels.trans hlabels
  have hall := forall₂_settled hcovered hr hsettled
  rw [helements, List.forall₂_map_left_iff] at hall
  have hlist := eq_of_forall₂_settled hlabels' hall (final_of_instructions hs)
  obtain ⟨elements, labels⟩ := s
  obtain ⟨elements', labels'⟩ := s'
  rw [Segment.mk.injEq]
  exact ⟨Array.toList_inj.mp hlist, hlabels'⟩

/-- Reading the listing of a segment gives the segment. -/
theorem accepts_codeSegment (h : Recoverable p s) (kind : SegmentKind)
    (hl : endsSegment l = true) :
    Accepts (codeSegment p kind) (p.lexemesFrom s 0 s.elements.toList ++ l :: ls) (l :: ls)
      (· = p.setSegment kind s) := by
  refine accepts_get.bind fun r hr => ?_
  have hfuel : (p.lexemesFrom s 0 s.elements.toList).length ≤ r.tokens.length := by
    have hcount := congrArg List.length hr
    rw [Reading.lexemes, List.length_map, List.length_append] at hcount
    omega
  have hi := h.segment.instructions
  refine (accepts_items h rfl (Nat.zero_le _) hi (.empty s) hl hfuel).bind fun d hd => ?_
  have helements : d.segment.elements.toList = s.elements.toList.map Element.pending := by
    have hlength : s.length = s.elements.toList.length := Array.length_toList.symm
    rw [hd.elements, hlength, List.take_length]
  have hlabels : d.segment.labels = s.labels := by
    rw [hd.labels]
    refine List.filter_eq_self.mpr fun x hx => ?_
    have hle := (h.segment.boundary x hx).1
    rw [Array.length_toList] at hle
    exact decide_eq_true (Nat.lt_succ_of_le hle)
  refine (accepts_resolveAll (isSome_label? hi helements hlabels) d.jumps).bind fun s' hs' => ?_
  have heq := eq_of_resolves hi helements hlabels hd.covered hs'.1 hs'.2
  subst heq
  exact (accepts_note _ _).bind fun _ _ => accepts_pure rfl

end ShadingMachine.Loader
