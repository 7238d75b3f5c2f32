import ShadingMachine.Command.Run

/-! The program: commands on the files of the computer. -/
open ShadingMachine

/-- Why a file cannot be read, in the words of the system. -/
def readReason (e : IO.Error) : String :=
  match e with
  | .noFileOrDirectory _ code _ => s!"No such file or directory (os error {code})"
  | .permissionDenied _ code _ => s!"Permission denied (os error {code})"
  | .inappropriateType _ code _ => s!"Is a directory (os error {code})"
  | _ => toString e

def readText (path : String) : IO (Except String String) := do
  match ← (IO.FS.readBinFile path).toBaseIO with
  | .error e => return .error (readReason e)
  | .ok bytes =>
    match String.fromUTF8? bytes with
    | some text => return .ok text
    | none => return .error "stream did not contain valid UTF-8"

def timedRun {α : Type} (f : Unit → α) : IO (α × Nat) := do
  let start ← IO.monoNanosNow
  let a ← IO.lazyPure f
  return (a, (← IO.monoNanosNow) - start)

def computer : Command.World IO := ⟨readText, timedRun, some .warn⟩

def main (args : List String) : IO UInt32 := do
  let outcome ← Command.runArgs computer args
  IO.print outcome.output
  IO.eprint outcome.errors
  return UInt32.ofNat outcome.exit
