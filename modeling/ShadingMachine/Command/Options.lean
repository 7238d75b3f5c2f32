import ShadingMachine.Machine.Argument
import ShadingMachine.Number.Numeral
import ShadingMachine.Pattern.Parse
import ShadingMachine.Text.Blank

/-! The arguments of the command line: a command, then words in any order. -/
namespace ShadingMachine.Command

def usage : String :=
  "Usage: slvm <check|disasm|run> [verbose] [timing] [trace] [lenient] [grid=UxV] " ++
    "[set=name:value] <file>"

structure Options where
  command : String
  verbose : Bool
  timing : Bool
  trace : Bool
  lenient : Bool
  /-- The steps along each direction. -/
  grid : Nat × Nat
  /-- Names of parameters and their values, in order. -/
  settings : List (String × String)
  files : List String
deriving DecidableEq, Inhabited

inductive OptionError where
  | noCommand
  | unknownOption (word : String)
  | badGrid (value : String)
  | badSetting (value : String)
  | noFile
  | manyFiles (count : Nat)
deriving DecidableEq, Inhabited

def OptionError.message : OptionError → String
  | noCommand => usage
  | unknownOption word => s!"Unknown option: {word}"
  | badGrid value => s!"Invalid grid: {value} (expected UxV)"
  | badSetting value => s!"Invalid set: {value} (expected name:value)"
  | noFile => "Missing <file>"
  | manyFiles count => s!"Expected one <file>, got {count}"

/-- What stands before and after the first separator. -/
def splitFirst? (isSeparator : Char → Bool) (cs : List Char) : Option (List Char × List Char) :=
  match cs.dropWhile (!isSeparator ·) with
  | _ :: rest => some (cs.takeWhile (!isSeparator ·), rest)
  | [] => none

/-- Two numbers with an `x` between. -/
def gridOf? (value : List Char) : Option (Nat × Nat) := do
  let (u, v) ← splitFirst? (fun c => c == 'x' || c == 'X') value
  let number? (cs : List Char) : Option Nat :=
    Number.naturalBelow? 0x10000000000000000 (Text.trim cs)
  return (← number? u, ← number? v)

/-- What follows the word at the front, if it is there. -/
def after? (front : String) (word : String) : Option (List Char) :=
  if front.toList.isPrefixOf word.toList then some (word.toList.drop front.length) else none

namespace Options

def initial (command : String) : Options :=
  ⟨command, false, false, false, false, (7, 7), [], []⟩

/-- Takes a word into account. -/
def add (o : Options) (word : String) : Except OptionError Options :=
  if (after? "--" word).isSome then .error (.unknownOption word)
  else if word = "verbose" then .ok { o with verbose := true }
  else if word = "timing" then .ok { o with timing := true }
  else if word = "trace" then .ok { o with trace := true }
  else if word = "lenient" then .ok { o with lenient := true }
  else if let some value := after? "grid=" word then
    match gridOf? value with
    | some grid => .ok { o with grid }
    | none => .error (.badGrid (String.ofList value))
  else if let some value := after? "set=" word then
    match splitFirst? (· == ':') value with
    | some (name, x) =>
      .ok { o with settings := o.settings ++ [(String.ofList name, String.ofList x)] }
    | none => .error (.badSetting (String.ofList value))
  else .ok { o with files := o.files ++ [word] }

def ofArgs : List String → Except OptionError Options
  | [] => .error .noCommand
  | command :: words => words.foldlM add (initial command)

/-- The one file. -/
def file (o : Options) : Except OptionError String :=
  match o.files with
  | [path] => .ok path
  | [] => .error .noFile
  | files => .error (.manyFiles files.length)

def config (o : Options) : Config := ⟨!o.lenient, o.trace⟩

end Options

/-- The value of a setting: numbers separated by commas, or else one string. -/
def argumentOf (text : String) : Argument :=
  match (text.toList.splitOn ',').mapM fun cs => Number.float32? (Text.trim cs) with
  | some xs => .floats xs
  | none => .strings [text]

end ShadingMachine.Command
