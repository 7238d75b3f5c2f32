import ShadingMachine.Proofs.Text.Offsets
import ShadingMachine.Program.Loader

/-! Texts that differ in their line endings. A text without carriage returns may be written with
another ending for each of its lines, and with a byte-order mark in front: making line endings alike
brings back the same characters and the same warnings, so that it loads in the same way. -/
namespace ShadingMachine

namespace Text

inductive LineEnding where
  | newline
  | carriageReturn
  | both

def LineEnding.chars : LineEnding → List Char
  | newline => ['\n']
  | carriageReturn => ['\r']
  | both => ['\r', '\n']

/-- The text with another ending for its lines. -/
def withEnding (ending : LineEnding) (text : List Char) : List Char :=
  text.flatMap fun c => if c = '\n' then ending.chars else [c]

/-- A text behind a byte-order mark, or as it is. -/
def withMark (mark : Bool) (text : List Char) : List Char :=
  if mark then '\ufeff' :: text else text

section

variable {c : Char} {cs ds : List Char} {text : List Char}

@[simp] theorem withEnding_nil (ending : LineEnding) : withEnding ending [] = [] := rfl

theorem withEnding_newline (ending : LineEnding) (cs : List Char) :
    withEnding ending ('\n' :: cs) = ending.chars ++ withEnding ending cs := by
  simp [withEnding]

theorem withEnding_cons (hc : c ≠ '\n') (ending : LineEnding) (cs : List Char) :
    withEnding ending (c :: cs) = c :: withEnding ending cs := by
  simp [withEnding, hc]

theorem unifyFrom_cons_congr (hcr : c ≠ '\r') (pos : Nat)
    (h : unifyFrom (pos + c.utf8Size) cs = unifyFrom (pos + c.utf8Size) ds) :
    unifyFrom pos (c :: cs) = unifyFrom pos (c :: ds) := by
  by_cases hnul : c = '\x00'
  · subst hnul
    rw [unifyFrom, unifyFrom]
    exact congrArg (fun r => (' ' :: r.1, nulWarning pos :: r.2)) h
  · have hcons (cs : List Char) := unifyFrom.eq_5 pos c cs (fun _ hc _ => hcr hc) hcr hnul
    rw [hcons, hcons, h]

/-- A carriage return that stands alone ends a line. -/
theorem unifyFrom_return (hcs : cs.head? ≠ some '\n') (pos : Nat) :
    unifyFrom pos ('\r' :: cs) = unifyFrom pos ('\n' :: cs) := by
  rw [unifyFrom.eq_3 pos cs fun rest hrest => hcs (by rw [hrest]; rfl),
    unifyFrom.eq_5 pos '\n' cs (by simp) (by simp) (by simp)]
  rfl

theorem unifyFrom_both (pos : Nat) (cs : List Char) :
    unifyFrom pos ('\r' :: '\n' :: cs) = unifyFrom pos ('\n' :: cs) := by
  rw [unifyFrom, unifyFrom.eq_5 pos '\n' cs (by simp) (by simp) (by simp)]
  rfl

theorem head?_withEnding_carriageReturn (text : List Char) :
    (withEnding .carriageReturn text).head? ≠ some '\n' := by
  cases text with
  | nil => simp
  | cons c cs =>
    by_cases hc : c = '\n'
    · subst hc
      simp [withEnding_newline, LineEnding.chars]
    · simp [withEnding_cons hc, hc]

/-- Wherever a text begins, its line endings are made alike to the same characters and warnings. -/
theorem unifyFrom_withEnding (ending : LineEnding) (hcr : '\r' ∉ text) (pos : Nat) :
    unifyFrom pos (withEnding ending text) = unifyFrom pos text := by
  induction text generalizing pos with
  | nil => rfl
  | cons c cs ih =>
    rw [List.mem_cons, not_or] at hcr
    have hrest := ih hcr.2 (pos + c.utf8Size)
    have hcons := unifyFrom_cons_congr (Ne.symm hcr.1) pos hrest
    by_cases hc : c = '\n'
    · subst hc
      rw [withEnding_newline, ← hcons]
      cases ending with
      | newline => rfl
      | carriageReturn => exact unifyFrom_return (head?_withEnding_carriageReturn cs) pos
      | both => exact unifyFrom_both pos _
    · rw [withEnding_cons hc, hcons]

theorem not_hasMark_withEnding (ending : LineEnding) (h : ¬HasMark text) :
    ¬HasMark (withEnding ending text) := by
  cases text with
  | nil => simp [HasMark]
  | cons c cs =>
    by_cases hc : c = '\n'
    · subst hc
      cases ending <;> simp [withEnding_newline, LineEnding.chars, HasMark]
    · rwa [withEnding_cons hc]

/-- A text with another line ending and with a mark or without is made the same. -/
theorem unifyLineEndings_withMark (mark : Bool) (ending : LineEnding) (hcr : '\r' ∉ text)
    (h : ¬HasMark text) :
    unifyLineEndings (withMark mark (withEnding ending text)) = unifyLineEndings text := by
  rw [unifyLineEndings_eq_unifyFrom h, ← unifyFrom_withEnding ending hcr]
  cases mark with
  | true => rfl
  | false => exact unifyLineEndings_eq_unifyFrom (not_hasMark_withEnding ending h)

end

end Text

namespace Program

open Text

/-- Of a text, loading sees what it is when its line endings are made alike. -/
theorem load_congr {text text' : List Char} (h : unifyLineEndings text' = unifyLineEndings text) :
    load text' = load text := by
  rw [load, load, h]

/-- Loading does not depend on the line endings of a text or on a mark in front of it: it gives the
same program or the same error at the same place, and makes the same notes. -/
theorem load_withEnding (mark : Bool) (ending : LineEnding) {text : List Char} (hcr : '\r' ∉ text)
    (h : ¬HasMark text) :
    unifyLineEndings (withMark mark (withEnding ending text)) = unifyLineEndings text ∧
      load (withMark mark (withEnding ending text)) = load text := by
  have hunified := unifyLineEndings_withMark mark ending hcr h
  exact ⟨hunified, load_congr hunified⟩

/-- Empty lines, a newline at the end and a character that is warned of. -/
theorem load_withEnding_marked :
    let text := "\nsurface\n\nAQSIS_V\x00 1.0\nUSES 0\nsegment\n\nbogus\n".toList
    let text' := ("\ufeff\r\nsurface\r\n\r\nAQSIS_V\x00 1.0\r\nUSES 0\r\nsegment\r\n\r\n" ++
      "bogus\r\n").toList
    ('\r' ∉ text ∧ ¬HasMark text) ∧ withMark true (withEnding .both text) = text' ∧
      unifyLineEndings text' = unifyLineEndings text ∧ load text' = load text := by
  intro text text'
  have htext' : withMark true (withEnding .both text) = text' := by decide
  have hplain : '\r' ∉ text ∧ ¬HasMark text := by decide
  exact ⟨hplain, htext', htext' ▸ load_withEnding true .both hplain.1 hplain.2⟩

end Program

end ShadingMachine
