import Mathlib.Algebra.Ring.Parity
import ShadingMachine.Value.Format

/-! A format as the parts that it is read in, and what is written for each of them. -/
namespace ShadingMachine.Format

/-- One part of a format. A percent sign with nothing behind it is left dangling. -/
inductive Part
  | plain (c : Char) (h : c ≠ '%')
  | percent
  | unknown (c : Char) (h : c ≠ '%' ∧ isConversion c = false)
  | conversion (letter : Char) (h : isConversion letter = true)
  | dangling

namespace Part

def spelling : Part → List Char
  | plain c _ => [c]
  | percent => ['%', '%']
  | unknown c _ | conversion c _ => ['%', c]
  | dangling => ['%']

def takesArgument : Part → Bool
  | conversion .. => true
  | _ => false

/-- What is written for a part at a point: a conversion's argument if there is one for it, a percent
sign for two, and anything else as it is spelled. -/
def written (argument : Option Value) (i : Nat) : Part → List Char
  | percent => ['%']
  | conversion letter _ => argument.elim ['%', letter] fun v => (convert letter v i).toList
  | plain c h => (plain c h).spelling
  | unknown c h => (unknown c h).spelling
  | dangling => dangling.spelling

end Part

/-- The parts of a format, from left to right. -/
def parts : List Char → List Part
  | [] => []
  | [c] => if h : c = '%' then [.dangling] else [.plain c h]
  | c :: d :: rest =>
    if h : c = '%' then
      if hd : d = '%' then .percent :: parts rest
      else if hc : isConversion d = true then .conversion d hc :: parts rest
      else .unknown d ⟨hd, Bool.eq_false_iff.mpr hc⟩ :: parts rest
    else .plain c h :: parts (d :: rest)

/-- How many arguments a format asks for. -/
def conversions (f : List Char) : Nat := (parts f).countP Part.takesArgument

/-- The percent signs at the end of a format do not pair up. -/
def EndsUnpaired (f : List Char) : Prop := Odd (f.reverse.takeWhile (· = '%')).length

/-- The format is spelled by the parts, and only the last of them may dangle. -/
def IsReading (f : List Char) (ps : List Part) : Prop :=
  ps.flatMap Part.spelling = f ∧ ∀ p ∈ ps.dropLast, p ≠ .dangling

/-- The parts written one after the other, each conversion with the next argument. -/
def writeParts (i : Nat) : List Part → List Value → List Char
  | [], _ => []
  | p :: ps, args =>
    p.written args.head? i ++ writeParts i ps (if p.takesArgument then args.tail else args)

variable {f : List Char} {p : Part} {args : List Value} {i : Nat}

@[simp] theorem isConversion_percent : isConversion '%' = false := by decide

theorem ne_percent_of_isConversion {c : Char} (h : isConversion c = true) : c ≠ '%' := by
  rintro rfl
  simp at h

/-! One part at the front. -/

theorem parts_spelling_append (hp : p ≠ .dangling) (g : List Char) :
    parts (p.spelling ++ g) = p :: parts g := by
  cases p with
  | plain c h => cases g <;> simp [Part.spelling, parts, h]
  | percent => simp [Part.spelling, parts]
  | unknown c h => simp [Part.spelling, parts, h.1, h.2]
  | conversion c h => simp [Part.spelling, parts, ne_percent_of_isConversion h, h]
  | dangling => exact absurd rfl hp

theorem expand_spelling_append (hp : p ≠ .dangling) (g : List Char) :
    expand (p.spelling ++ g) args i = p.written args.head? i ++
      expand g (if p.takesArgument then args.tail else args) i := by
  cases p with
  | plain c h => simp [Part.spelling, Part.written, Part.takesArgument, expand, h]
  | percent => cases args <;> simp [Part.spelling, Part.written, Part.takesArgument, expand]
  | unknown c h =>
    cases args <;> simp [Part.spelling, Part.written, Part.takesArgument, expand, h.1, h.2]
  | conversion c h =>
    cases args <;> simp [Part.spelling, Part.written, Part.takesArgument, expand,
      ne_percent_of_isConversion h, h]
  | dangling => exact absurd rfl hp

theorem exists_front (f : List Char) :
    f = [] ∨ f = Part.dangling.spelling ∨
      ∃ (p : Part) (g : List Char), p ≠ .dangling ∧ f = p.spelling ++ g := by
  match f with
  | [] => exact .inl rfl
  | c :: rest =>
    right
    by_cases h : c = '%'
    · subst h
      match rest with
      | [] => exact .inl rfl
      | d :: rest =>
        right
        by_cases hd : d = '%'
        · exact ⟨.percent, rest, nofun, by rw [hd]; rfl⟩
        · cases hc : isConversion d with
          | true => exact ⟨.conversion d hc, rest, nofun, rfl⟩
          | false => exact ⟨.unknown d ⟨hd, hc⟩, rest, nofun, rfl⟩
    · exact .inr ⟨.plain c h, rest, nofun, rfl⟩

/-- Formats by their parts: what holds of the empty one and of a dangling percent sign, and still
holds with one more part at the front, holds of all. -/
@[elab_as_elim]
theorem induction_parts {motive : List Char → Prop} (nil : motive [])
    (dangling : motive Part.dangling.spelling)
    (part : ∀ (p : Part) (g : List Char), p ≠ .dangling → motive g → motive (p.spelling ++ g))
    (f : List Char) : motive f := by
  induction hn : f.length using Nat.strong_induction_on generalizing f with
  | _ n ih =>
    obtain rfl | rfl | ⟨p, g, hp, rfl⟩ := exists_front f
    · exact nil
    · exact dangling
    · have hlt : g.length < n := by
        rw [← hn, List.length_append]
        cases p <;> simp [Part.spelling]
      exact part p g hp (ih g.length hlt g rfl)

theorem isReading_parts (f : List Char) : IsReading f (parts f) := by
  induction f using induction_parts with
  | nil => exact ⟨rfl, nofun⟩
  | dangling => exact ⟨rfl, nofun⟩
  | part p g hp ih =>
    rw [parts_spelling_append hp]
    refine ⟨by rw [List.flatMap_cons, ih.1], fun q hq => ?_⟩
    cases hg : parts g with
    | nil => simp [hg] at hq
    | cons r rs =>
      rw [hg, List.dropLast_cons_of_ne_nil (List.cons_ne_nil r rs), ← hg] at hq
      rcases List.mem_cons.mp hq with rfl | hq
      · exact hp
      · exact ih.2 q hq

/-- A format has no other reading than its parts. -/
theorem isReading_iff {ps : List Part} : IsReading f ps ↔ ps = parts f := by
  refine ⟨?_, fun h => h ▸ isReading_parts f⟩
  rintro ⟨rfl, hlast⟩
  induction ps with
  | nil => rfl
  | cons p ps ih =>
    cases ps with
    | nil =>
      by_cases hp : p = .dangling
      · subst hp
        rfl
      · rw [List.flatMap_cons, parts_spelling_append hp]
        rfl
    | cons q ps =>
      rw [List.dropLast_cons_of_ne_nil (List.cons_ne_nil q ps), List.forall_mem_cons] at hlast
      rw [List.flatMap_cons, parts_spelling_append hlast.1, ← ih hlast.2]

theorem expand_eq_writeParts (f : List Char) (args : List Value) :
    expand f args i = writeParts i (parts f) args := by
  induction f using induction_parts generalizing args with
  | nil => rw [expand_nil, parts, writeParts]
  | dangling => simp [Part.spelling, expand, parts, writeParts, Part.written]
  | part p g hp ih =>
    rw [expand_spelling_append hp, parts_spelling_append hp, writeParts, ih]

/-- A part leaves the percent signs at the end as they pair up behind it. -/
theorem endsUnpaired_spelling_append (hp : p ≠ .dangling) (g : List Char) :
    EndsUnpaired (p.spelling ++ g) ↔ EndsUnpaired g := by
  have heven : Even (p.spelling.reverse.takeWhile (· = '%')).length := by
    cases p with
    | plain c h => simp [Part.spelling, h]
    | percent => exact ⟨1, rfl⟩
    | unknown c h => simp [Part.spelling, h.1]
    | conversion c h => simp [Part.spelling, ne_percent_of_isConversion h]
    | dangling => exact absurd rfl hp
  rw [EndsUnpaired, EndsUnpaired, List.reverse_append, List.takeWhile_append]
  split
  · next hall => rw [hall, List.length_append, Nat.odd_add, iff_true_right heven]
  · exact Iff.rfl

/-- What follows a format without an unpaired percent sign at its end is read by itself. -/
theorem parts_append (hf : ¬ EndsUnpaired f) (g : List Char) :
    parts (f ++ g) = parts f ++ parts g := by
  induction f using induction_parts with
  | nil => rfl
  | dangling => exact absurd (by simp [EndsUnpaired, Part.spelling]) hf
  | part p rest hp ih =>
    rw [endsUnpaired_spelling_append hp] at hf
    rw [List.append_assoc, parts_spelling_append hp, parts_spelling_append hp, ih hf,
      List.cons_append]

theorem writeParts_append (ps qs : List Part) (args : List Value) :
    writeParts i (ps ++ qs) args =
      writeParts i ps args ++ writeParts i qs (args.drop (ps.countP Part.takesArgument)) := by
  induction ps generalizing args with
  | nil => rfl
  | cons p ps ih =>
    rw [List.cons_append, writeParts, writeParts, ih, List.append_assoc, List.countP_cons]
    split <;> simp

/-- Each part finds the argument that as many conversions stand before it. -/
theorem writeParts_eq_flatten (ps : List Part) (args : List Value) :
    writeParts i ps args = (ps.mapIdx fun j p =>
      p.written args[(ps.take j).countP Part.takesArgument]? i).flatten := by
  induction ps generalizing args with
  | nil => rfl
  | cons p ps ih =>
    have hnext (n : Nat) : (if p.takesArgument then args.tail else args)[n]? =
        args[n + if p.takesArgument then 1 else 0]? := by
      split <;> simp
    simp [writeParts, ih, List.mapIdx_cons, List.countP_cons, hnext, List.head?_eq_getElem?]

/-- Arguments that no conversion asks for are not looked at. -/
theorem writeParts_take (ps : List Part) (args : List Value) :
    writeParts i ps (args.take (ps.countP Part.takesArgument)) = writeParts i ps args := by
  induction ps generalizing args with
  | nil => rfl
  | cons p ps ih =>
    rw [writeParts, writeParts, List.countP_cons]
    cases htakes : p.takesArgument with
    | true => cases args <;> simp [ih]
    | false =>
      have hwritten (argument : Option Value) : p.written argument i = p.written none i := by
        cases p <;> simp_all [Part.written, Part.takesArgument]
      simp [ih, hwritten (List.head? _)]

/-- A format that does not end in an unpaired percent sign is written before whatever follows it, and
takes as many of the arguments as it asks for. In it each part is written by itself: a conversion with
the argument that as many conversions stand before, and what is not asked for does not matter. -/
theorem expand_append (f : List Char) (args : List Value) (i : Nat) :
    (¬ EndsUnpaired f → ∀ g, expand (f ++ g) args i =
      expand f args i ++ expand g (args.drop (min args.length (conversions f))) i) ∧
    (∀ ps, IsReading f ps ↔ ps = parts f) ∧
    expand f args i = ((parts f).mapIdx fun j p =>
      p.written args[((parts f).take j).countP Part.takesArgument]? i).flatten ∧
    expand f (args.take (conversions f)) i = expand f args i := by
  refine ⟨fun hf g => ?_, fun _ => isReading_iff, ?_, ?_⟩
  · have hdrop : args.drop (min args.length (conversions f)) = args.drop (conversions f) := by
      rw [min_comm, ← List.drop_eq_drop_min]
    rw [hdrop]
    simp only [conversions, expand_eq_writeParts, parts_append hf, writeParts_append]
  · rw [expand_eq_writeParts, writeParts_eq_flatten]
  · rw [expand_eq_writeParts, expand_eq_writeParts, conversions, writeParts_take]

/-- The percent sign of the argument and the one that two stand for do not make a pair, and the second
conversion is left without an argument. -/
theorem expand_append_percents :
    ¬ EndsUnpaired ['%', 's', '%', '%'] ∧
    expand (['%', 's', '%', '%'] ++ ['%', 's']) [⟨.string, .uniform, ⟨.string, #["%"]⟩⟩] 0 =
      ['%', '%', '%', 's'] := by
  have hpaired : ¬ EndsUnpaired ['%', 's', '%', '%'] := by
    unfold EndsUnpaired
    decide
  refine ⟨hpaired, ?_⟩
  rw [(expand_append _ _ 0).1 hpaired]
  decide

end ShadingMachine.Format
