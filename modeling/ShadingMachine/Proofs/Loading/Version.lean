import ShadingMachine.Proofs.Loading.Origin
import ShadingMachine.Proofs.Loading.Relaid
import ShadingMachine.Proofs.Text.VersionLine

/-! Loading texts that differ in their versions. A version is kept as it is written, but its line is
scanned like any other: what the scanner finds wrong in it keeps the text from loading. -/
namespace ShadingMachine

open Text

/-- What may be written for a version: a part of a line that is not blank, without comments. -/
structure IsVersionText (v : List Char) : Prop where
  plain : ∀ c ∈ v, c ∉ ['\n', '\r', '\x00', '#']
  nonempty : trim v ≠ []

instance (v : List Char) : Decidable (IsVersionText v) :=
  decidable_of_iff (v.all (· ∉ ['\n', '\r', '\x00', '#']) = true ∧ trim v ≠ [])
    ⟨fun h => ⟨by simpa using h.1, h.2⟩, fun h => ⟨by simpa using h.plain, h.nonempty⟩⟩

variable {text front line rest v : List Char}

namespace IsVersionText

variable (hv : IsVersionText v)
include hv

theorem notMem {c : Char} (hc : c ∈ ['\n', '\r', '\x00', '#']) : c ∉ v := fun h => hv.plain c h hc

theorem map_plainChar : (' ' :: v).map plainChar = ' ' :: v := by
  rw [List.map_cons, map_plainChar_eq_self (hv.notMem (by decide))]
  rfl

theorem versionOf : Loader.versionOf (' ' :: v) = trim v := by
  have hcomment : (' ' :: v).takeWhile (· != '#') = ' ' :: v := by
    refine List.takeWhile_eq_self_iff.mpr (List.forall_mem_cons.mpr ⟨by decide, fun c hc => ?_⟩)
    exact bne_iff_ne.mpr fun h => hv.notMem (by decide) (h ▸ hc)
  rw [Loader.versionOf, hcomment, Loader.trim_space]

end IsVersionText

namespace Text

/-- A space only moves what is read. -/
theorem scanFrom_space (pos : Nat) (cs : List Char) : scanFrom pos (' ' :: cs) =
    ((scan cs).1.map (·.shift (pos + 1)), (scan cs).2.map (·.shift (pos + 1))) := by
  rw [scanFrom_gap (piece_blank (by decide) cs)]
  exact scanFrom_shift (pos + 1) 0 cs

theorem breaksOff_space (cs : List Char) : BreaksOff (' ' :: cs) ↔ BreaksOff cs := by
  have hpiece := piece_blank (c := ' ') (by decide) cs
  constructor
  · intro h
    cases h with
    | later h => rwa [hpiece] at h
  · intro h
    exact .later (by rwa [hpiece])

end Text

namespace Text.VersionAt

variable (h : VersionAt text front line rest)
include h

/-- The text with another version. -/
theorem revise (hv : IsVersionText v) :
    VersionAt (front ++ (' ' :: v ++ rest)) front (' ' :: v) rest := by
  refine ⟨rfl, h.clean, h.lexemes, h.gaps, by rintro _ ⟨⟩; rfl, List.cons_ne_nil _ _, ?_, h.rest⟩
  exact ⟨List.not_mem_cons_of_ne_of_not_mem (by decide) (hv.notMem (by decide)),
    List.not_mem_cons_of_ne_of_not_mem (by decide) (hv.notMem (by decide))⟩

theorem unified : (unifyLineEndings text).1 =
    (unifyLineEndings front).1 ++ (line.map plainChar ++ Text.unified rest) := by
  have hfront : front ≠ [] := by
    rintro rfl
    obtain ⟨l, hl⟩ := h.lexemes
    simp [Text.lexemes] at hl
  have hline : (line ++ rest).head? ≠ some '\n' := by
    rw [List.head?_append_of_ne_nil _ h.nonempty]
    exact fun hhead => h.oneLine.1 (List.mem_of_head? hhead)
  rw [h.text, unifyLineEndings_append hfront hline, unified_append h.oneLine.2]

theorem endsName : EndsName (line.map plainChar ++ Text.unified rest) := by
  rw [← unified_append h.oneLine.2]
  have hword : EndsName (line ++ rest) := by
    obtain ⟨c, cs, hline⟩ := List.exists_cons_of_ne_nil h.nonempty
    have hword := h.word
    rw [hline] at hword ⊢
    exact hword
  exact (follows_unified _).forall_head (fun x hx => hx.part) hword

theorem endsLine : EndsLine (Text.unified rest) := by
  have hrest := h.rest
  fun_cases Text.unified rest with
  | case1 => exact fun x hx => by cases hx
  | case2 | case3 => exact fun x hx => (Option.some.inj hx).symm
  | case4 c cs hcrlf hcr =>
    obtain rfl : c = '\n' := (hrest c rfl).resolve_right hcr
    exact fun x hx => (Option.some.inj hx).symm

/-- What is wrong with the text is wrong with the line of the version or behind it. -/
theorem faults (hline : ¬BreaksOff (line.map plainChar)) :
    (scan (unifyLineEndings text).1).2 =
      (scanFrom (byteSize (unifyLineEndings front).1) (line.map plainChar)).2 ++
        (scanFrom (byteSize (unifyLineEndings front).1 + byteSize (line.map plainChar))
          (Text.unified rest)).2 := by
  obtain ⟨first, second, -, -, hscans⟩ := h.scans_front
  have hscan := (hscans _ h.endsName).eq
  rw [← h.unified, Nat.zero_add, scanFrom_endsLine hline h.endsLine] at hscan
  exact congrArg Prod.snd hscan

end Text.VersionAt

namespace Loader

variable {kind : ShaderKind} {r : Reading} {first second : Token}

namespace BehindFront

variable (hr : BehindFront kind (start text) r first second) (h : VersionAt text front line rest)
include hr h

/-- The two words are all of the front. -/
theorem scans_front : second.span.stop = byteSize (unifyLineEndings front).1 ∧
    ∀ back, EndsName back → Scans 0 (unifyLineEndings front).1 [first, second] back := by
  obtain ⟨first', second', -, hstop, hscans⟩ := h.scans_front
  have hscan := (hscans _ h.endsName).eq
  rw [← h.unified] at hscan
  obtain ⟨rfl, hsecond⟩ := List.cons.inj (hr.tokens.symm.trans (congrArg Prod.fst hscan))
  obtain ⟨rfl, -⟩ := List.cons.inj hsecond
  exact ⟨hstop, hscans⟩

/-- In a text with the same front they are the same. -/
theorem exists_behindFront {text' line' rest' : List Char}
    (h' : VersionAt text' front line' rest') :
    ∃ r', BehindFront kind (start text') r' first second := by
  have hscan := ((hr.scans_front h).2 _ h'.endsName).eq
  rw [← h'.unified] at hscan
  exact ⟨⟨_, _, _, _⟩, congrArg Prod.fst hscan, hr.word, hr.kind, hr.lexeme, rfl⟩

/-- Behind the line with the version all tokens of the other lines are left, and only these. -/
theorem line_behindLine (hclean : (scan (unifyLineEndings text).1).2 = [])
    (hline : ¬BreaksOff (line.map plainChar)) : r.line = line.map plainChar ∧ r.behindLine = { r with
      tokens := (scanFrom (byteSize (unifyLineEndings front).1 + byteSize (line.map plainChar))
        (unified rest)).1 } := by
  obtain ⟨hstop, hscans⟩ := hr.scans_front h
  have hscan := (hscans _ h.endsName).eq
  rw [← h.unified, Nat.zero_add] at hscan
  have htokens : r.tokens = (scanFrom (byteSize (unifyLineEndings front).1)
      (line.map plainChar ++ unified rest)).1 := by
    have heq := hr.tokens.symm.trans (congrArg Prod.fst hscan)
    exact (List.cons.inj (List.cons.inj heq).2).2
  have hback : dropBytes r.lastEnd r.source.text = line.map plainChar ++ unified rest := by
    have hdrop := dropBytes_byteSize_append (unifyLineEndings front).1
      (line.map plainChar ++ unified rest)
    rw [← h.unified] at hdrop
    rw [hr.lastEnd, hr.source, hstop]
    exact hdrop
  have hnewline : ∀ c ∈ line.map plainChar, (c != '\n') = true := by
    intro c hc
    obtain ⟨d, hd, rfl⟩ := List.mem_map.mp hc
    rw [bne_iff_ne, Ne, plainChar_eq_iff (by decide) (by decide)]
    rintro rfl
    exact h.oneLine.1 hd
  have hends : ∀ c ∈ (unified rest).head?, (c != '\n') = false := fun c hc => by
    rw [h.endsLine c hc]
    rfl
  have hfirst : r.line = line.map plainChar := by
    rw [Reading.line, hback]
    exact (takeWhile_append_of_head hnewline hends).1
  have hfaults := h.faults hline
  rw [hclean, eq_comm, List.append_eq_nil_iff] at hfaults
  refine ⟨hfirst, ?_⟩
  rw [behindLine_eq, hfirst, htokens, drop_scanFrom hline h.endsLine hfaults.1]
  · rw [hback, hr.lastEnd, hstop]
    exact htokens
  · rw [hback, hr.lastEnd, hstop]
    exact (congrArg Prod.snd hscan).symm.trans hclean

omit h in
theorem spelledIn :
    ∀ t ∈ r.behindLine.tokens, t.SpelledIn (unifyLineEndings text).1 := by
  intro t ht
  have htokens : (scan (unifyLineEndings text).1).1 = first :: second :: r.tokens := hr.tokens
  refine spelledIn_of_scan _ t ?_
  rw [htokens]
  exact .tail _ (.tail _ ((List.dropWhile_suffix _).subset ht))

end BehindFront

/-- What is scanned does not depend on where it is, but for the places of the tokens. -/
theorem map_lexeme_scanFrom (pos : Nat) (cs : List Char) :
    (scanFrom pos cs).1.map Token.lexeme = (scan cs).1.map Token.lexeme := by
  have hshift := scanFrom_shift pos 0 cs
  rw [Nat.add_zero] at hshift
  rw [hshift, List.map_map]
  rfl

end Loader

namespace Program

variable {p : Program}

theorem exists_versionAt_of_load (h : (load text).1 = .ok p) :
    ∃ front line rest, VersionAt text front line rest := by
  have hclean := (readFrom_of_load h).2
  obtain ⟨r, hprogram⟩ := exists_program_of_load hclean h
  obtain ⟨kind, first, second, r₁, hfront, hversion, -⟩ := Loader.reads_parts _ _ hprogram
  refine exists_versionAt hclean hfront.tokens hfront.lexeme fun hnil => hversion ?_
  have hline : r₁.line = [] := by
    rw [Loader.Reading.line, hfront.lastEnd, hfront.source]
    exact hnil
  rw [hline]
  rfl

section

variable (hat : VersionAt text front line rest) (hv : IsVersionText v)
include hat hv

/-- A text with a version that is faulty fails to load with its first fault. -/
theorem load_of_faulty_version {d : Diagnostic} {ds : List Diagnostic} (hfault : (scan v).2 = d :: ds)
    (hwhole : ¬BreaksOff v) : ∃ e, (load (front ++ (' ' :: v ++ rest))).1 = .error e ∧
      e.cause = .reported d.message := by
  have hfaults := (hat.revise hv).faults
  rw [hv.map_plainChar, breaksOff_space, scanFrom_space, hfault] at hfaults
  exact ⟨_, load_of_fault (hfaults hwhole), rfl⟩

/-- A version without faults leaves the text without faults. -/
theorem clean_of_faultless_version (hclean : (scan (unifyLineEndings text).1).2 = [])
    (hline : ¬BreaksOff (line.map plainChar)) (hfaultless : (scan v).2 = []) :
    (scan (unifyLineEndings (front ++ (' ' :: v ++ rest))).1).2 = [] := by
  have hwhole : ¬BreaksOff ((' ' :: v).map plainChar) := by
    rw [hv.map_plainChar, breaksOff_space]
    exact not_breaksOff_of_clean hfaultless
  have hfaults := hat.faults hline
  rw [hclean, eq_comm, List.append_eq_nil_iff] at hfaults
  rw [(hat.revise hv).faults hwhole, hv.map_plainChar, scanFrom_space, hfaultless]
  exact faults_eq_nil _ _ hfaults.2 _

/-- With a version that is without faults nothing but the version is changed. -/
theorem load_of_faultless_version (h : (load text).1 = .ok p)
    (hline : ¬BreaksOff (line.map plainChar)) (hfaultless : (scan v).2 = []) :
    (load (front ++ (' ' :: v ++ rest))).1 =
      .ok { p with version := String.ofList (trim v) } := by
  have hat' := hat.revise hv
  have hline' : ¬BreaksOff (' ' :: v) := by
    rw [breaksOff_space]
    exact not_breaksOff_of_clean hfaultless
  have hclean := (readFrom_of_load h).2
  have hclean' := clean_of_faultless_version hat hv hclean hline hfaultless
  obtain ⟨r, hprogram⟩ := exists_program_of_load hclean h
  obtain ⟨kind, first, second, r₁, hfront, -, hp⟩ := Loader.reads_parts _ _ hprogram
  obtain ⟨r₁', hfront'⟩ := hfront.exists_behindFront hat hat'
  obtain ⟨-, hbehind⟩ := hfront.line_behindLine hat hclean hline
  obtain ⟨hversion, hbehind'⟩ := hfront'.line_behindLine hat' hclean' (by rwa [hv.map_plainChar])
  rw [hv.map_plainChar] at hversion
  have hprogram' := hfront'.program_eq (by rw [hversion, hv.versionOf]; exact hv.nonempty)
  rw [hversion, hv.versionOf] at hprogram'
  have halike : r₁.behindLine.Alike (.ofChars (unifyLineEndings text).1)
      (.ofChars (unifyLineEndings (front ++ (' ' :: v ++ rest))).1) r₁'.behindLine := by
    refine ⟨⟨hfront.source, hfront'.source⟩,
      Loader.forall₂_sameToken hfront.spelledIn hfront'.spelledIn ?_⟩
    rw [hbehind, hbehind', Loader.map_lexeme_scanFrom, Loader.map_lexeme_scanFrom]
  have hrevised := Loader.alike_behindVersion kind
    (String.ofList (Loader.versionOf r₁.line)) (String.ofList (trim v)) _ _ halike
  rw [hp, ← hprogram'] at hrevised
  cases hq : Loader.program (Loader.start (front ++ (' ' :: v ++ rest))) with
  | ok q r' =>
    rw [hq] at hrevised
    rw [load_of_clean hclean', hq, hrevised.1.rest]
  | error e r' =>
    rw [hq] at hrevised
    exact hrevised.elim

end

/-- A text that loads has a version, and it may have any other that is scanned without faults: the
program is the same but for the version. With a version that is faulty the text is refused for its
first fault. What is left out are lines that end in a string with a backslash behind it, which goes
on with the next line. -/
theorem load_withVersion (h : (load text).1 = .ok p) :
    (∃ front line rest, VersionAt text front line rest) ∧
    ∀ front line rest v, VersionAt text front line rest → IsVersionText v →
      ¬BreaksOff (line.map plainChar) →
      ((scan v).2 = [] → (load (front ++ (' ' :: v ++ rest))).1 =
        .ok { p with version := String.ofList (trim v) }) ∧
      ∀ d ds, (scan v).2 = d :: ds → ¬BreaksOff v →
        ∃ e, (load (front ++ (' ' :: v ++ rest))).1 = .error e ∧ e.cause = .reported d.message := by
  refine ⟨exists_versionAt_of_load h, fun front line rest v hat hv hline => ?_⟩
  exact ⟨load_of_faultless_version hat hv h hline,
    fun d ds hfault hwhole => load_of_faulty_version hat hv hfault hwhole⟩

/-- A version of several words, and one with a number that is glued to a letter. -/
theorem load_withVersion_words :
    let front := "# first\r\nsurface AQSIS_V".toList
    let line := " 1.0 # old".toList
    let rest := "\r\nUSES 0\n".toList
    let words := "2.0 \"beta\" ".toList
    let glued := "1.8b".toList
    ∃ p, (load (front ++ (line ++ rest))).1 = .ok p ∧
      VersionAt (front ++ (line ++ rest)) front line rest ∧ ¬BreaksOff (line.map plainChar) ∧
      IsVersionText words ∧ IsVersionText glued ∧ ¬BreaksOff glued ∧
      (load (front ++ (' ' :: words ++ rest))).1 = .ok { p with version := "2.0 \"beta\"" } ∧
      ∃ e, (load (front ++ (' ' :: glued ++ rest))).1 = .error e ∧
        e.cause = .reported "Invalid number: 1.8b" := by
  intro front line rest words glued
  have hat : VersionAt (front ++ (line ++ rest)) front line rest :=
    ⟨rfl, by decide +kernel, ⟨(.word, "surface"), by decide +kernel⟩, by decide +kernel,
      fun c hc => by cases hc; rfl, by decide, by decide, fun c hc => by cases hc; decide⟩
  have hfault : (scan glued).2 = [.ofCause .error (.invalidNumber "1.8b") (some ⟨0, 4⟩)] := by
    decide +kernel
  have hline : ¬BreaksOff (line.map plainChar) := fun h => absurd h.isSuffix (by decide +kernel)
  have hglued : ¬BreaksOff glued := fun h => absurd h.isSuffix (by decide)
  have hwords : IsVersionText words := by decide +kernel
  have hnumber : IsVersionText glued := by decide +kernel
  have hloads : (load (front ++ (line ++ rest))).1.toOption.isSome = true := by decide +kernel
  cases hp : (load (front ++ (line ++ rest))).1 with
  | error e =>
    rw [hp] at hloads
    cases hloads
  | ok p =>
    obtain ⟨hok, -⟩ := (load_withVersion hp).2 front line rest words hat hwords hline
    obtain ⟨-, herror⟩ := (load_withVersion hp).2 front line rest glued hat hnumber hline
    have htrim : String.ofList (trim words) = "2.0 \"beta\"" := by decide +kernel
    rw [← htrim]
    exact ⟨p, rfl, hat, hline, hwords, hnumber, hglued, hok (by decide +kernel),
      herror _ _ hfault hglued⟩

/-- A number that is glued to a letter may be written for a version, and the text is refused. -/
theorem not_load_withVersion_glued :
    let front := "surface\nAQSIS_V".toList
    let rest := "\nUSES 0\nsegment Code\n".toList
    VersionAt (front ++ (" 1.0".toList ++ rest)) front " 1.0".toList rest ∧
      IsVersionText "1.8b".toList ∧
      ∃ p, (load (front ++ (" 1.0".toList ++ rest))).1 = .ok p ∧
        (load (front ++ (' ' :: "1.8b".toList ++ rest))).1 ≠ .ok { p with version := "1.8b" } := by
  intro front rest
  have hat : VersionAt (front ++ (" 1.0".toList ++ rest)) front " 1.0".toList rest :=
    ⟨rfl, by decide +kernel, ⟨(.word, "surface"), by decide +kernel⟩, by decide +kernel,
      fun c hc => by cases hc; rfl, by decide, by decide, fun c hc => by cases hc; decide⟩
  have hloads : refusal? (front ++ (" 1.0".toList ++ rest)) = none := by decide +kernel
  have hfails : refusal? (front ++ (' ' :: "1.8b".toList ++ rest)) =
      some ⟨.reported "Invalid number: 1.8b", "1.8b", ⟨16, 20⟩, 2, 9, none⟩ := by decide +kernel
  refine ⟨hat, by decide +kernel, ?_⟩
  unfold refusal? at hloads
  split at hloads
  · rename_i p hp
    refine ⟨p, hp, ?_⟩
    rw [load_of_refusal? hfails]
    rintro ⟨⟩
  · cases hloads

end Program

end ShadingMachine
