import ShadingMachine.Proofs.Loading.Contract
import ShadingMachine.Proofs.Loading.Spelling
import ShadingMachine.Proofs.Number.Double
import ShadingMachine.Proofs.Text.Tiling

/-! The numbers of a text. Those of the grammar are the texts that are read as numbers, and the number
tokens are among them, so that none keeps a text from loading for its spelling; labels are the natural
numbers that fit. -/
namespace ShadingMachine.Text

open Number

variable {cs ds rest sign : List Char}

/-- The digits that a text has before `rest`. -/
theorem digitsPart_digits_append (hds : ds.all Char.isDigit)
    (hrest : ∀ c ∈ rest.head?, c.isDigit = false) : digitsPart (ds ++ rest) = (ds, rest) := by
  have hall := List.all_eq_true.mp hds
  rw [digitsPart, List.takeWhile_append_of_pos hall, List.dropWhile_append_of_pos hall]
  cases rest with
  | nil => simp
  | cons c cs => simp [hrest c rfl]

theorem snd_splitSign_append (hsign : IsSign sign)
    (hrest : ∀ c ∈ rest.head?, c ≠ '-' ∧ c ≠ '+') : (splitSign (sign ++ rest)).2 = rest := by
  cases hsign with
  | minus | plus => rfl
  | none =>
    cases rest with
    | nil => rfl
    | cons c cs =>
      obtain ⟨hminus, hplus⟩ := hrest c rfl
      simp [splitSign, hminus, hplus]

theorem ne_sign_of_isDigit {c : Char} (h : c.isDigit = true) : c ≠ '-' ∧ c ≠ '+' := by
  constructor <;> rintro rfl <;> cases h

theorem isSome_exponentOf? (h : IsExponent cs) : (exponentOf? cs).isSome := by
  cases h with
  | none => rfl
  | @some e sign ds he hsign hne hall =>
    have hds : (splitSign (sign ++ ds)).2 = ds := by
      refine snd_splitSign_append hsign fun c hc => ?_
      exact ne_sign_of_isDigit (List.all_eq_true.mp hall c (List.mem_of_head? hc))
    have hletter : (e == 'e' || e == 'E') = true := by
      rcases he with rfl | rfl <;> rfl
    rw [List.cons_append, exponentOf?]
    dsimp only
    rw [hds]
    rw [if_pos (by simp [hletter, hne, hall])]
    rfl

/-- An exponent begins with its letter. -/
theorem IsExponent.head (h : IsExponent cs) :
    ∀ c ∈ cs.head?, c.isDigit = false ∧ c ≠ '.' := by
  intro c hc
  cases h with
  | none => cases hc
  | some he =>
    obtain rfl := Option.some.inj hc
    rcases he with rfl | rfl <;> decide

/-- A decimal begins with a digit or a point, and not with a sign. -/
theorem IsDecimal.head (h : IsDecimal cs) (rest : List Char) :
    ∀ c ∈ (cs ++ rest).head?, c ≠ '-' ∧ c ≠ '+' := by
  intro c hc
  cases h with
  | @whole ds hne hall =>
    rw [List.head?_append_of_ne_nil _ hne] at hc
    exact ne_sign_of_isDigit (List.all_eq_true.mp hall c (List.mem_of_head? hc))
  | @point ds es hne hds hes =>
    cases ds with
    | nil =>
      obtain rfl := Option.some.inj hc
      decide
    | cons d ds =>
      obtain rfl := Option.some.inj hc
      exact ne_sign_of_isDigit (List.all_eq_true.mp hds d List.mem_cons_self)

theorem isSome_numeral?_of_isNumber (h : IsNumber cs) : (numeral? cs).isSome := by
  obtain @⟨sign, decimal, exponent, hsign, hdecimal, hexponent⟩ := h
  have hsome := isSome_exponentOf? hexponent
  have hsplit : (splitSign (sign ++ decimal ++ exponent)).2 = decimal ++ exponent := by
    rw [List.append_assoc]
    exact snd_splitSign_append hsign (hdecimal.head exponent)
  have hdigits {ds : List Char} (hds : ds.all Char.isDigit) :
      (ds ++ exponent).takeWhile Char.isDigit = ds ∧
        (ds ++ exponent).dropWhile Char.isDigit = exponent :=
    Prod.mk.inj (digitsPart_digits_append hds fun c hc => (hexponent.head c hc).1)
  rw [numeral?]
  generalize splitSign (sign ++ decimal ++ exponent) = split at hsplit ⊢
  obtain ⟨negative, body⟩ := split
  obtain rfl : body = decimal ++ exponent := hsplit
  dsimp only
  cases hdecimal with
  | whole hne hall =>
    rw [(hdigits hall).1, (hdigits hall).2]
    have hpoint : ∀ rest, exponent ≠ '.' :: rest := by
      rintro rest rfl
      exact (hexponent.head '.' rfl).2 rfl
    split
    · exact absurd rfl (hpoint _)
    · simpa [hne] using hsome
  | @point ds es hne hds hes =>
    have hwhole : digitsPart (ds ++ '.' :: (es ++ exponent)) = (ds, '.' :: (es ++ exponent)) :=
      digitsPart_digits_append hds fun c hc => Option.some.inj hc ▸ rfl
    obtain ⟨htake, hdrop⟩ := Prod.mk.inj hwhole
    simp only [List.append_assoc, List.cons_append, htake, hdrop, (hdigits hes).1, (hdigits hes).2]
    rw [if_neg (by simpa using hne)]
    simpa using hsome

/-- A text is read as a number exactly if it is one by the grammar. -/
theorem isSome_numeral?_iff : (numeral? cs).isSome ↔ IsNumber cs := by
  refine ⟨fun h => ?_, isSome_numeral?_of_isNumber⟩
  obtain ⟨hdigits, hend⟩ := shape_of_numeral? h
  cases cs with
  | nil =>
    obtain ⟨d, ds, -, h | h⟩ := hdigits <;> cases h
  | cons c cs =>
    have happend := numberPart_append (c :: cs)
    rw [hend, List.append_nil] at happend
    exact happend ▸ isNumber_numberPart hdigits.head.1

/-- The number tokens of a text. -/
theorem isNumber_of_mem_scan {text : List Char} {t : Token} (ht : t ∈ (scan text).1)
    (hkind : t.kind = .number) : IsNumber t.text.toList := by
  obtain ⟨spans, htiling⟩ := tiling_scanFrom [] text
  have hspells := (htiling.spelled t ht).spells
  rw [hkind] at hspells
  cases hspells with
  | number hnumber => exact hnumber

end ShadingMachine.Text

namespace ShadingMachine

open Text Number

namespace Loader

/-- The number tokens are numbers by the grammar, and no error is that one is none. -/
def Terms.numbers : Terms where
  reading r := ∀ t ∈ r.tokens, t.kind = .number → IsNumber t.text.toList
  token t := t.kind = .number → IsNumber t.text.toList
  range _ := True
  error e := e.cause.isMisread = false
  ranged _ := trivial
  peeked := by
    rintro ⟨source, tokens, lastEnd, log⟩ hr
    cases tokens with
    | nil => exact nofun
    | cons t ts => exact hr t List.mem_cons_self
  passed hr t ht := hr t (List.mem_cons_of_mem _ ht)
  dropped hr hts t ht := hr t (hts.mem ht)
  noted _ hr := hr
  ended _ := trivial
  reported _ _ _ hcause := hcause
  misread _ ht hkind hnone := by
    have hsome := isSome_numeral?_of_isNumber (ht hkind)
    rw [hnone] at hsome
    cases hsome

variable {t : Token} {n : Numeral} {k : ℕ}

theorem labelId?_eq_some (hn : numeral? t.text.toList = some n) :
    t.labelId? = some k ↔ k < 2 ^ 32 ∧ valueOf? n.toFloat = some (k : ℚ) := by
  rw [Token.labelId?, hn, Option.bind_some, Option.filter_eq_some_iff, wholeOf?_eq_some,
    decide_eq_true_eq, and_comm]
  rfl

theorem labelId_eq (t : Token) : labelId t = match t.labelId? with
    | some k => pure k
    | none => fail (.invalidOperand ":" "label" s!"number '{t.text}'") t := rfl

theorem labelId_eq_ok_iff {r : Reading} : labelId t r = .ok k r ↔ t.labelId? = some k := by
  rw [labelId_eq]
  cases t.labelId? with
  | none => exact iff_of_false nofun nofun
  | some found =>
    rw [Option.some_inj]
    exact ⟨fun h => (EStateM.Result.ok.inj h).1, fun h => h ▸ rfl⟩

theorem labelId_error_iff {r : Reading} :
    (∃ e, labelId t r = .error e r) ↔ ∀ k, t.labelId? ≠ some k := by
  rw [labelId_eq]
  cases t.labelId? with
  | none => exact iff_of_true ⟨_, rfl⟩ nofun
  | some found => exact iff_of_false nofun fun h => h found rfl

end Loader

open Loader

/-- Every number of a text is one by the grammar and is read as a single and as a double, and the
double is a number or infinite. It is refused as a label exactly if it is infinite, negative,
fractional or above `2 ^ 32 - 1`, and otherwise it is the label. No text fails to load because of a
number that could not be read. -/
theorem Program.numbers_of_load (text : List Char) :
    (∀ t ∈ (scan text).1, t.kind = .number → IsNumber t.text.toList ∧
      ∃ n, numeral? t.text.toList = some n ∧ n.toFloat.isNaN = false ∧ ∀ r,
        ((∃ e, labelId t r = .error e r) ↔ IsNoLabel n.toFloat) ∧
        ∀ k : ℕ, labelId t r = .ok k r ↔ k < 2 ^ 32 ∧ valueOf? n.toFloat = some (k : ℚ)) ∧
    ∀ e, (load text).1 = .error e → ∀ s, e.cause ≠ .invalidNumber s := by
  refine ⟨fun t ht hkind => ?_, fun e h s hcause => ?_⟩
  · have hnumber := isNumber_of_mem_scan ht hkind
    obtain ⟨n, hn⟩ := Option.isSome_iff_exists.mp (isSome_numeral?_of_isNumber hnumber)
    have hnan := n.isNaN_toFloat
    refine ⟨hnumber, n, hn, hnan, fun r => ⟨?_, fun k => ?_⟩⟩
    · rw [labelId_error_iff, ← not_iff_not, not_isNoLabel_iff hnan]
      simp only [labelId?_eq_some hn, not_forall, not_not]
    · rw [labelId_eq_ok_iff, labelId?_eq_some hn]
  · have hmisread : e.cause.isMisread = false := by
      rcases error_of_load (T := .numbers) (fun log t ht => isNumber_of_mem_scan ht) h with
        ⟨d, hd, rfl⟩ | herror
      · rfl
      · exact herror
    rw [hcause] at hmisread
    cases hmisread

/-- A number that is read as infinite is no label, and where no shader may begin it is a token that was
not expected. -/
theorem Program.numbers_of_load_infinite :
    (∃ t ∈ (scan "1e400".toList).1, t.kind = .number ∧ IsNumber t.text.toList ∧
      ∀ r, ∃ e, labelId t r = .error e r) ∧
    ∃ e, (load "1e400".toList).1 = .error e ∧ ∀ s, e.cause ≠ .invalidNumber s := by
  have ht : ⟨.number, "1e400", ⟨0, 5⟩⟩ ∈ (scan "1e400".toList).1 := by decide +kernel
  constructor
  · obtain ⟨hnumber, n, hn, -, hlabel⟩ := (numbers_of_load "1e400".toList).1 _ ht rfl
    have hread : numeral? "1e400".toList = some ⟨false, 1, 400⟩ := by decide +kernel
    obtain rfl := Option.some.inj (hn.symm.trans hread)
    refine ⟨_, ht, rfl, hnumber, fun r => (hlabel r).1.mpr (.inl ?_)⟩
    decide +kernel
  · cases h : (load "1e400".toList).1 with
    | ok p =>
      have hnone : (load "1e400".toList).1.toOption.isNone = true := by decide +kernel
      rw [h] at hnone
      cases hnone
    | error e => exact ⟨e, rfl, (numbers_of_load _).2 e h⟩

end ShadingMachine
