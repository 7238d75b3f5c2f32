import ShadingMachine.Proofs.Loading.Origin

/-! The loops of a reading end of themselves. Every round takes a token, so a loop that may go on
for as many rounds as there are tokens stops where its own condition says. -/
namespace ShadingMachine.Loader

open Text

variable {α β : Type} {r : Reading} {p : Program} {n m : Nat}

/-- Two computations that begin alike agree if they agree from where they come to. -/
theorem bind_congr_at {x : Load α} {f g : α → Load β} {Q : α → Reading → Prop} (hx : Reads x r Q)
    (h : ∀ a r', Q a r' → f a r' = g a r') : (x >>= f) r = (x >>= g) r := by
  simp only [Bind.bind, EStateM.bind]
  cases heq : x r with
  | ok a r' => exact h a r' (hx a r' heq)
  | error e r' => rfl

theorem tokens_eq_nil (h : r.tokens.length ≤ 0) : r.tokens = [] :=
  List.eq_nil_of_length_eq_zero (Nat.le_zero.mp h)

theorem length_tail_le {t : Token} {ts : List Token} (hts : r.tokens = t :: ts)
    (h : r.tokens.length ≤ n + 1) : (r.next t ts).tokens.length ≤ n := by
  rw [hts] at h
  exact Nat.le_of_succ_le_succ h

theorem flags_succ (h : r.tokens.length ≤ n) (param output : Bool) :
    flags (n + 1) param output r = flags n param output r := by
  induction n generalizing r param output with
  | zero =>
    refine bind_congr_at (reads_expect (by decide) _) fun t r' ht => ?_
    obtain ⟨-, ts, hts, -⟩ := ht
    rw [tokens_eq_nil h] at hts
    cases hts
  | succ n ih =>
    refine bind_congr_at (reads_expect (by decide) _) fun t r' ht => ?_
    obtain ⟨-, ts, hts, rfl⟩ := ht
    have hrest := length_tail_le hts h
    split
    · exact ih hrest true output
    · split
      · exact ih hrest param true
      · rfl

theorem atSegmentEnd_of_nil (h : r.tokens = []) : atSegmentEnd r = .ok true r := by
  obtain ⟨source, tokens, lastEnd, log⟩ := r
  cases h
  rfl

/-- A declaration takes a token at least. -/
theorem reads_declaration_shorter (p : Program) :
    Reads (declaration p) r fun _ r' => r'.tokens.length < r.tokens.length := by
  refine (reads_get (Q := fun a r' => a = r ∧ r' = r) ⟨rfl, rfl⟩).bind fun r₁ r₂ hr => ?_
  obtain ⟨rfl, rfl⟩ := hr
  refine (reads_flags _ _ _).bind fun found r₃ hr₃ => ?_
  obtain ⟨param, output, t⟩ := found
  dsimp only
  split
  · exact reads_fail _ _
  · refine (reads_expect (by decide) _).bind fun t₄ r₄ ht₄ => ?_
    obtain ⟨-, ts₄, hts₄, rfl⟩ := ht₄
    split
    · exact reads_failWith _ _ _
    · refine (reads_expect (by decide) _).bind fun t₅ r₅ ht₅ => reads_unless fun _ => ?_
      obtain ⟨-, ts₅, hts₅, rfl⟩ := ht₅
      refine reads_arrayLength.bind fun length r₆ hr₆ => reads_pure ?_
      have hlast := (hr₆.1.trans (Reading.after_next hts₅)).tokens.length_le
      have hfirst := hr₃.tokens.length_le
      rw [hts₄, List.length_cons] at hfirst
      exact Nat.lt_of_lt_of_le (Nat.lt_succ_of_le hlast) hfirst

theorem declarations_succ (h : r.tokens.length ≤ n) (p : Program) :
    declarations (n + 1) p r = declarations n p r := by
  induction n generalizing r p with
  | zero => exact bind_eq (atSegmentEnd_of_nil (tokens_eq_nil h))
  | succ n ih =>
    refine bind_congr_at reads_atSegmentEnd fun atEnd r₁ hend => ?_
    obtain ⟨rfl, -⟩ := hend
    cases atEnd with
    | true => rfl
    | false =>
      refine bind_congr_at (reads_declaration_shorter p) fun d r₂ hr₂ => ?_
      refine bind_congr_at (reads_note _ _) fun _ r₃ hr₃ => ih ?_ _
      rw [hr₃.2]
      omega

/-- A segment that is being read. -/
theorem items_succ {start : List Token} {d : Draft} (h : r.tokens.length ≤ n)
    (hd : d.SpelledFrom p start r.tokens) : items (n + 1) p d r = items n p d r := by
  induction n generalizing r d with
  | zero => exact bind_eq (atSegmentEnd_of_nil (tokens_eq_nil h))
  | succ n ih =>
    refine bind_congr_at reads_atSegmentEnd fun atEnd r₁ hend => ?_
    obtain ⟨rfl, hend⟩ := hend
    cases atEnd with
    | true => rfl
    | false =>
      obtain ⟨t, ts, hts, hends⟩ := hend
      refine bind_congr_at reads_peek fun t' r₂ ht' => ?_
      obtain ⟨rfl, ⟨ts', hts'⟩ | ⟨hnil, -⟩⟩ := ht'
      · obtain ⟨rfl, rfl⟩ := List.cons.inj (hts.symm.trans hts')
        refine bind_congr_at (reads_skip hts) fun _ r₃ hr₃ => ?_
        subst hr₃
        have hrest := length_tail_le hts h
        rw [hts] at hd
        cases hkind : t.kind with
        | colon =>
          exact bind_congr_at (reads_labelDefinition hkind hd) fun d' r' hd' =>
            ih (hd'.2.tokens.length_le.trans hrest) hd'.1
        | word =>
          exact bind_congr_at (reads_instruction t hkind hends hd) fun d' r' hd' =>
            ih (hd'.2.tokens.length_le.trans hrest) hd'.1
        | number | string | leftBracket | rightBracket | endOfInput => rfl
      · rw [hts] at hnil
        cases hnil

theorem reads_declarations_after (n : Nat) (p : Program) :
    Reads (declarations n p) r fun _ r' => r'.tokens.length ≤ r.tokens.length := by
  induction n generalizing r p with
  | zero => exact reads_pure le_rfl
  | succ n ih =>
    refine reads_atSegmentEnd.bind fun atEnd r₁ hend => ?_
    obtain ⟨rfl, -⟩ := hend
    split
    · exact reads_pure le_rfl
    · refine (reads_declaration_shorter p).bind fun d r₂ hr₂ => ?_
      refine (reads_note _ _).bind fun _ r₃ hr₃ => ?_
      refine (ih _).imp fun _ r₄ hr₄ => ?_
      rw [hr₃.2] at hr₄
      omega

theorem reads_codeSegment_after (p : Program) (kind : SegmentKind) :
    Reads (codeSegment p kind) r fun _ r' => r'.tokens.length ≤ r.tokens.length := by
  refine (reads_codeSegment p kind).imp fun p' r' hp' => ?_
  obtain ⟨s, used, -, hused, -⟩ := hp'
  rw [hused, List.length_append]
  exact Nat.le_add_left ..

theorem segments_succ (h : r.tokens.length ≤ n) (next : Nat) (p : Program) :
    segments (n + 1) next p r = segments n next p r := by
  induction n generalizing r next p with
  | zero =>
    obtain ⟨source, tokens, lastEnd, log⟩ := r
    cases tokens_eq_nil h
    rfl
  | succ n ih =>
    refine bind_congr_at reads_peek fun t r₁ ht => ?_
    obtain ⟨rfl, -⟩ := ht
    split
    · rfl
    · refine bind_congr_at (reads_expectKeyword _) fun _ r₂ hr₂ => ?_
      obtain ⟨t₂, ts₂, -, hts₂, rfl⟩ := hr₂
      refine bind_congr_at (reads_expect (by decide) _) fun t₃ r₃ hr₃ => ?_
      obtain ⟨-, ts₃, hts₃, rfl⟩ := hr₃
      have hrest : (Reading.next _ t₃ ts₃).tokens.length ≤ n :=
        (Reading.after_next hts₃).tokens.length_le.trans (length_tail_le hts₂ h)
      cases segmentNames.findIdx? (· == t₃.text) with
      | none => rfl
      | some k =>
        by_cases hk : k < next
        · simp only [hk, if_true]
          rfl
        · simp only [hk, if_false]
          match k with
          | 0 =>
            refine bind_congr_at (reads_get (Q := fun _ r' => r' = _) rfl) fun r₄ r₅ hr₅ => ?_
            subst hr₅
            exact bind_congr_at (reads_declarations_after _ p) fun p' r' hr' =>
              ih (hr'.trans hrest) _ p'
          | 1 =>
            exact bind_congr_at (reads_codeSegment_after p .init) fun p' r' hr' =>
              ih (hr'.trans hrest) _ p'
          | k + 2 =>
            exact bind_congr_at (reads_codeSegment_after p .code) fun p' r' hr' =>
              ih (hr'.trans hrest) _ p'

/-- The loops at a place of the text go on for no more rounds than there are tokens left: if more
are allowed they do the same. -/
structure EndsWithin (r : Reading) (n : Nat) : Prop where
  flags : ∀ param output, flags n param output r = flags r.tokens.length param output r
  declarations : ∀ p, declarations n p r = declarations r.tokens.length p r
  items : ∀ p, items n p ⟨.empty, []⟩ r = items r.tokens.length p ⟨.empty, []⟩ r
  segments : ∀ next p, segments n next p r = segments r.tokens.length next p r

theorem endsWithin (h : r.tokens.length ≤ n) : EndsWithin r n := by
  induction n, h using Nat.le_induction with
  | base => exact ⟨fun _ _ => rfl, fun _ => rfl, fun _ => rfl, fun _ _ => rfl⟩
  | succ n hn ih =>
    exact ⟨fun param output => (flags_succ hn param output).trans (ih.flags param output),
      fun p => (declarations_succ hn p).trans (ih.declarations p),
      fun p => (items_succ hn ⟨[], rfl, .nil⟩).trans (ih.items p),
      fun next p => (segments_succ hn next p).trans (ih.segments next p)⟩

end ShadingMachine.Loader
