import ShadingMachine.Command.Options
import ShadingMachine.Machine.Execution
import ShadingMachine.Program.Listing
import ShadingMachine.Program.Loader

/-! The commands: checking a program, listing it, and running it over a patch that is lit from
the eye. -/
namespace ShadingMachine.Command

/-- What a command leaves behind. -/
structure Outcome where
  exit : Nat
  output : String
  errors : String
deriving DecidableEq, Inhabited

/-- What a command takes from outside: files, or the reason why one cannot be read, the time in
nanoseconds that a computation takes, and the least level of notes shown if none is asked for. -/
structure World (m : Type → Type) where
  read : String → m (Except String String)
  timed : {α : Type} → (Unit → α) → m (α × Nat)
  level : Option Text.Level

def lines (texts : List String) : String := String.join (texts.map (· ++ "\n"))

/-- A note as a line; the lines after the first are indented. -/
def noteLine (n : Text.Note) : String :=
  let padding := String.ofList (List.replicate (5 - n.level.word.length) ' ')
  let text := String.intercalate "\n    " (n.text.splitOn "\n")
  s!"[{n.level.word}{padding} slvm] {text}\n"

namespace Options

/-- The least level of notes that is shown. -/
def level (o : Options) (otherwise : Option Text.Level) : Option Text.Level :=
  if o.trace then some .trace else if o.verbose then some .debug else otherwise

end Options

/-- The notes that are shown. -/
def noteText (level : Option Text.Level) (log : Text.Log) : String :=
  match level with
  | some l => String.join ((log.toList.filter fun n => n.level.rank ≤ l.rank).map noteLine)
  | none => ""

/-- What `check` says about a program when asked for more. -/
def summary (p : Program) : List String :=
  let param (d : Declaration) : String :=
    let output := if d.output then "output " else ""
    let length := (d.arrayLength.map fun n => s!"[{n}]").getD ""
    s!"  param {output}{d.detail.keyword} {d.type.keyword} {d.name}{length}"
  (s!"{p.kind.keyword} shader: {p.locals.size} locals, " ++
    s!"{p.init.instructionCount} init and {p.code.instructionCount} code instructions") ::
    p.params.map param

/-- A patch with a dim light everywhere and a light that shines away from the eye. -/
def litPatch (grid : Nat × Nat) : Grid :=
  { Grid.fresh grid.1 grid.2 with
    lights := #[⟨.ambient, .white, 0.1, []⟩, ⟨.distant ⟨0, 0, 1⟩, .white, 1, []⟩] }

/-- More instructions than any run takes. -/
def runLimit : Nat := 0x4000000000000000

def execMessage (e : ExecError) : String := s!"ExecError: {e.message}"

/-- Sets parameters up to the first that cannot be set, which is returned as a message. -/
def applySettings : List (String × String) → Exec Grid (Option String)
  | [] => return none
  | (name, value) :: settings => do
    let m ← Exec.machine
    match m.setArgument (← Exec.environment) name (argumentOf value) none with
    | .ok m =>
      Exec.modifyMachine fun _ => m
      applySettings settings
    | .error e => return some e.message

/-- Everything before the code is run; exit code and message if it fails. -/
def prepare (o : Options) : Exec Grid (Option (Nat × String)) := do
  Exec.bind
  match ← Exec.attempt (Exec.executeInit runLimit) with
  | .error e => return some (1, execMessage e)
  | .ok _ => return (← applySettings o.settings).map fun message => (2, message)

/-- The output parameters and variables with the value of their first point. -/
def resultLines (m : Machine) : List String :=
  (m.program.locals.toList.filter (·.output)).filterMap fun d => do
    let v ← m.local? d.name
    return if v.isVarying then s!"{d.name} = {v.text 0} ({v.size} points)"
      else s!"{d.name} = {v.text 0}"

/-- Nanoseconds as milliseconds. -/
def milliseconds (t : Nat) : String :=
  let micros := toString (t / 1000 % 1000)
  s!"{t / 1000000}." ++ String.ofList (List.replicate (3 - micros.length) '0') ++ micros

/-- The session after a computation, and its result. -/
def outcomeOf {α : Type} (x : Exec Grid α) (s : Session Grid) : Except ExecError α × Session Grid :=
  match x s with
  | .ok a s => (.ok a, s)
  | .error e s => (.error e, s)

variable {m : Type → Type} [Monad m]

/-- Runs a program, and shows what it prints and its results. -/
def shade (w : World m) (o : Options) (p : Program) (log : Text.Log) (loadTime : Nat) :
    m Outcome := do
  let start : Session Grid := ⟨.fresh p o.config, ⟨litPatch o.grid, log⟩⟩
  let shown (s : Session Grid) : String := noteText (o.level w.level) s.host.log
  let ((prepared, s), initTime) ← w.timed fun _ => outcomeOf (prepare o) start
  match prepared with
  | .error e => return ⟨1, "", shown s ++ execMessage e ++ "\n"⟩
  | .ok (some (exit, message)) => return ⟨exit, "", shown s ++ message ++ "\n"⟩
  | .ok none =>
    let ((result, s), execTime) ← w.timed fun _ => outcomeOf (Exec.execute runLimit) s
    let printed := lines s.host.env.output.toList
    match result with
    | .error e => return ⟨1, printed, shown s ++ execMessage e ++ "\n"⟩
    | .ok _ =>
      let timing :=
        if o.timing then
          s!"TIMING load={milliseconds loadTime}ms init={milliseconds initTime}ms " ++
            s!"exec={milliseconds execTime}ms\n"
        else ""
      return ⟨0, printed ++ lines (resultLines s.machine) ++ timing, shown s⟩

/-- What is done with a program that loads. -/
inductive Job where
  | check
  | disasm
  | run
deriving DecidableEq, Inhabited

def Job.ofName? (name : String) : Option Job :=
  match name with
  | "check" => some .check
  | "disasm" => some .disasm
  | "run" => some .run
  | _ => none

/-- Loads a file and does the job. A report that cannot be made breaks the command off. -/
def perform (w : World m) (o : Options) (job : Job) (path : String) : m Outcome := do
  match ← w.read path with
  | .error reason => return ⟨2, "", s!"cannot read {path}: {reason}\n"⟩
  | .ok text =>
    let ((loaded, log), loadTime) ← w.timed fun _ => Program.load text.toList
    let notes := noteText (o.level w.level) log
    match loaded with
    | .error e =>
      match e.toDiagnostic.render? path (.ofChars text.toList) with
      | some report => return ⟨1, "", notes ++ report ++ "\n"⟩
      | none => return ⟨101, "", notes⟩
    | .ok p =>
      match job with
      | .check => return ⟨0, if o.verbose then lines (summary p) else "", notes⟩
      | .disasm => return ⟨0, p.listing, notes⟩
      | .run => shade w o p log loadTime

/-- The whole command line. -/
def runArgs (w : World m) (args : List String) : m Outcome := do
  match Options.ofArgs args with
  | .error e => return ⟨2, "", e.message ++ "\n"⟩
  | .ok o =>
    match Job.ofName? o.command, o.file with
    | none, _ => return ⟨2, "", s!"Unknown command: {o.command}\n{usage}\n"⟩
    | some _, .error e => return ⟨2, "", e.message ++ "\n"⟩
    | some job, .ok path => perform w o job path

end ShadingMachine.Command
