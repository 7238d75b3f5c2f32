import ShadingMachine.Proofs.Listing.Declarations
import ShadingMachine.Proofs.Loading.Alike
import ShadingMachine.Proofs.Text.OnLine

/-! The parts that a program is read in: two words, the line with the version, and what follows.
Only for the version does it matter where the tokens stand. -/
namespace ShadingMachine

open Text

namespace Loader

/-- The kind of the program, and the word before its version. -/
def front : Load ShaderKind := do
  let t ← expect .word "shader kind"
  match ShaderKind.ofKeyword? t.text with
  | some kind =>
    expectKeyword "AQSIS_V"
    return kind
  | none =>
    failWith (.unknownShaderKind t.text) t.span (closest t.text (ShaderKind.all.map (·.keyword)))

/-- All that is behind the version. -/
def behindVersion (kind : ShaderKind) (version : String) : Load Program := do
  expectKeyword "USES"
  let uses ← usesMask
  let p ← segments (← get).tokens.length 0 ⟨kind, version, uses, #[], .empty, .empty⟩
  note .debug (s!"loaded {p.kind.keyword} program: {p.locals.size} locals, " ++
    s!"{p.init.instructionCount} init and {p.code.instructionCount} code instructions")
  return p

theorem program_eq_parts : program = (do
    let kind ← front
    let v ← version
    behindVersion kind v) := by
  unfold program header front behindVersion
  simp only [bind_assoc]
  refine bind_congr fun t => ?_
  cases ShaderKind.ofKeyword? t.text with
  | some kind => simp only [bind_assoc, pure_bind]
  | none => rfl

variable {r : Reading} {s s' : Source}

/-- The place behind the two words, the first of which is for a kind. -/
structure BehindFront (kind : ShaderKind) (r r' : Reading) (first second : Token) : Prop where
  tokens : r.tokens = first :: second :: r'.tokens
  word : first.kind = .word
  kind : ShaderKind.ofKeyword? first.text = some kind
  lexeme : second.lexeme = (.word, "AQSIS_V")
  place : r' = { r with tokens := r'.tokens, lastEnd := second.span.stop }

namespace BehindFront

variable {kind : ShaderKind} {r' : Reading} {first second : Token}
  (h : BehindFront kind r r' first second)
include h

theorem source : r'.source = r.source := by rw [h.place]

theorem lastEnd : r'.lastEnd = second.span.stop := by rw [h.place]

theorem front_eq : front r = .ok kind r' := by
  have hexpect := expect_eq h.tokens "shader kind"
  rw [h.word] at hexpect
  obtain ⟨hword, htext⟩ := kind_of_lexeme h.lexeme
  have hkeyword := expectKeyword_eq (r := { r with
    tokens := second :: r'.tokens, lastEnd := first.span.stop }) rfl hword
  rw [htext] at hkeyword
  unfold front
  rw [bind_eq hexpect, h.kind]
  dsimp only
  rw [bind_eq hkeyword, h.place]
  rfl

end BehindFront

theorem reads_front : Reads front r fun kind r' =>
    ∃ first second, BehindFront kind r r' first second := by
  refine (reads_expect (by decide) _).bind fun first r₁ hfirst => ?_
  obtain ⟨hword, ts, hts, rfl⟩ := hfirst
  split
  · rename_i kind hkind
    refine (reads_expectKeyword _).bind fun _ r₂ hr₂ => reads_pure ?_
    obtain ⟨second, ts₂, hsecond, hts₂, rfl⟩ := hr₂
    refine ⟨first, second, ?_, hword, hkind, hsecond, rfl⟩
    rw [hts, show ts = second :: ts₂ from hts₂]
    rfl
  · exact reads_failWith _ _ _

theorem alike_front : Alike s s' Eq front front := by
  refine (alike_expect _ _).bind fun t t' ht => ?_
  rw [ht.text]
  split
  · exact (alike_expectKeyword _).bind fun _ _ _ => alike_pure rfl
  · exact alike_failWith ht.slice _ _

theorem alike_behindVersion (kind : ShaderKind) (v v' : String) :
    Alike s s' (Revised v v') (behindVersion kind v) (behindVersion kind v') := by
  refine (alike_expectKeyword _).bind fun _ _ _ => alike_usesMask.bind fun uses _ huses => ?_
  subst huses
  refine alike_get.bind fun r r' hr => ?_
  rw [hr.tokens.length_eq]
  refine (alike_segments _ _ ⟨rfl, rfl⟩).bind fun p q hpq => ?_
  exact (alike_note _ _ _).bind fun _ _ _ => alike_pure hpq

/-- The rest of the line of the last token. -/
def Reading.line (r : Reading) : List Char :=
  (dropBytes r.lastEnd r.source.text).takeWhile (· != '\n')

/-- The place behind that line. -/
def Reading.behindLine (r : Reading) : Reading :=
  { r with tokens := r.tokens.dropWhile (·.isBefore (r.lastEnd + byteSize r.line)) }

/-- How many tokens are on the line can be told from the line. -/
theorem behindLine_eq (htokens : r.tokens =
      (scanFrom r.lastEnd (dropBytes r.lastEnd r.source.text)).1)
    (hclean : (scanFrom r.lastEnd (dropBytes r.lastEnd r.source.text)).2 = []) :
    r.behindLine = { r with tokens := r.tokens.drop (pieceCount r.line) } := by
  have hparts : r.line ++ (dropBytes r.lastEnd r.source.text).dropWhile (· != '\n') =
      dropBytes r.lastEnd r.source.text := List.takeWhile_append_dropWhile
  rw [← hparts] at htokens hclean
  have hdrop := dropWhile_scanFrom (endsLine_dropWhile _) rfl hclean
  rw [pieceCount_eq, ← htokens] at hdrop
  rw [Reading.behindLine, hdrop]

/-- The version that a line says. -/
def versionOf (line : List Char) : List Char := trim (line.takeWhile (· != '#'))

theorem version_eq_ite : version r =
    if (versionOf r.line).isEmpty then
      .error (errorAt r.source (.expectedToken "version after AQSIS_V") (.point r.lastEnd) none) r
    else .ok (String.ofList (versionOf r.line)) r.behindLine := by
  have hget : (get : Load Reading) r = .ok r r := rfl
  unfold version
  rw [bind_eq hget]
  dsimp only
  split
  · rename_i hempty
    exact (if_pos (c := (versionOf r.line).isEmpty = true) hempty).symm
  · rename_i hnonempty
    exact (if_neg (c := (versionOf r.line).isEmpty = true) hnonempty).symm

/-- Where the line is the same, and alike what is behind it, the version is the same. -/
theorem sameResult_version {r' : Reading} (hline : r'.line = r.line)
    (hbehind : r.behindLine.Alike s s' r'.behindLine) :
    SameResult s s' Eq (version r) (version r') := by
  rw [version_eq_ite, version_eq_ite, hline]
  split
  · refine ⟨rfl, ?_, rfl⟩
    exact congrArg String.ofList ((slice_point _ _).trans (slice_point _ _).symm)
  · exact ⟨rfl, hbehind⟩

/-- A program is read alike if the version is read alike. -/
theorem sameResult_program {r' : Reading} (h : r.Alike s s' r')
    (hversion : ∀ r₁ r₁', r₁.Alike s s' r₁' →
      (∃ kind first second, BehindFront kind r r₁ first second) →
      (∃ kind first second, BehindFront kind r' r₁' first second) →
      r₁'.line = r₁.line ∧ r₁.behindLine.Alike s s' r₁'.behindLine) :
    SameResult s s' Eq (program r) (program r') := by
  rw [program_eq_parts]
  refine (alike_front r r' h).bind fun kind _ r₁ r₁' hfront hfront' hkind h₁ => ?_
  subst hkind
  obtain ⟨hline, hbehind⟩ :=
    hversion r₁ r₁' h₁ ⟨kind, reads_front _ _ hfront⟩ ⟨kind, reads_front _ _ hfront'⟩
  refine (sameResult_version hline hbehind).bind fun v _ r₂ r₂' _ _ hv h₂ => ?_
  subst hv
  exact (alike_behindVersion kind v v).imp (fun _ _ => Revised.eq) r₂ r₂' h₂

/-- Of a line that has a version, this is read. -/
theorem version_eq_ok (h : versionOf r.line ≠ []) :
    version r = .ok (String.ofList (versionOf r.line)) r.behindLine := by
  rw [version_eq_ite, if_neg (by simpa using h)]

theorem reads_versionOf : Reads version r fun v r' =>
    versionOf r.line ≠ [] ∧ v = String.ofList (versionOf r.line) ∧ r' = r.behindLine := by
  intro v r' hv
  by_cases hempty : (versionOf r.line).isEmpty = true
  · rw [version_eq_ite, if_pos hempty] at hv
    cases hv
  · rw [List.isEmpty_iff] at hempty
    rw [version_eq_ok hempty] at hv
    cases hv
    exact ⟨hempty, rfl, rfl⟩

/-- A program is read in its three parts. -/
theorem reads_parts : Reads program r fun p r' => ∃ kind first second r₁,
    BehindFront kind r r₁ first second ∧ versionOf r₁.line ≠ [] ∧
      behindVersion kind (String.ofList (versionOf r₁.line)) r₁.behindLine = .ok p r' := by
  rw [program_eq_parts]
  refine reads_front.bind fun kind r₁ hfront => reads_versionOf.bind fun v r₂ hv p r' hp => ?_
  obtain ⟨first, second, hfront⟩ := hfront
  obtain ⟨hnonempty, rfl, rfl⟩ := hv
  exact ⟨kind, first, second, r₁, hfront, hnonempty, hp⟩

theorem BehindFront.program_eq {kind : ShaderKind} {r' : Reading} {first second : Token}
    (h : BehindFront kind r r' first second) (hversion : versionOf r'.line ≠ []) :
    program r = behindVersion kind (String.ofList (versionOf r'.line)) r'.behindLine := by
  rw [program_eq_parts, bind_eq h.front_eq, bind_eq (version_eq_ok hversion)]

/-- The place where the reading of a text begins. -/
def start (text : List Char) : Reading :=
  ⟨.ofChars (unifyLineEndings text).1, (scan (unifyLineEndings text).1).1, 0,
    ((unifyLineEndings text).2.map fun d => Note.mk .warn d.message).toArray⟩

end Loader

namespace Program

variable {text : List Char} {p : Program}

/-- A text without faults is loaded by reading its tokens. -/
theorem load_of_clean (h : (scan (unifyLineEndings text).1).2 = []) :
    load text = match Loader.program (Loader.start text) with
      | .ok p r => (.ok p, r.log)
      | .error e r => (.error e, r.log) := by
  rw [load]
  dsimp only
  rw [h]
  rfl

theorem exists_program_of_load (hclean : (scan (unifyLineEndings text).1).2 = [])
    (h : (load text).1 = .ok p) : ∃ r, Loader.program (Loader.start text) = .ok p r := by
  rw [load_of_clean hclean] at h
  cases hp : Loader.program (Loader.start text) with
  | ok q r =>
    rw [hp] at h
    cases h
    exact ⟨r, rfl⟩
  | error e r =>
    rw [hp] at h
    cases h

end Program

end ShadingMachine
