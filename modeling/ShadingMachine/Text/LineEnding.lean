import ShadingMachine.Text.Diagnostic

/-! Line endings made alike: carriage returns become newlines, a leading byte-order mark is
dropped, and NUL characters become spaces with a warning each. -/
namespace ShadingMachine.Text

def nulWarning (pos : Nat) : Diagnostic :=
  .warning "NUL byte in program text replaced by a space" (some ⟨pos, pos + 1⟩)

/-- The characters of a text and the warnings about them, the text beginning at `pos`. -/
def unifyFrom : Nat → List Char → List Char × List Diagnostic
  | _, [] => ([], [])
  | pos, '\r' :: '\n' :: cs =>
    let (text, warnings) := unifyFrom (pos + 1) cs
    ('\n' :: text, warnings)
  | pos, '\r' :: cs =>
    let (text, warnings) := unifyFrom (pos + 1) cs
    ('\n' :: text, warnings)
  | pos, '\x00' :: cs =>
    let (text, warnings) := unifyFrom (pos + 1) cs
    (' ' :: text, nulWarning pos :: warnings)
  | pos, c :: cs =>
    let (text, warnings) := unifyFrom (pos + c.utf8Size) cs
    (c :: text, warnings)

def unifyLineEndings (cs : List Char) : List Char × List Diagnostic :=
  match cs with
  | '\ufeff' :: rest => unifyFrom 0 rest
  | _ => unifyFrom 0 cs

@[simp] theorem unifyLineEndings_nil : unifyLineEndings [] = ([], []) := rfl

end ShadingMachine.Text
