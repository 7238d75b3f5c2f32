import ShadingMachine.Command.Run

/-! Files held in memory, in one folder in which no time passes. -/
namespace ShadingMachine.Command

/-- Names of files, relative to the folder, and their texts. -/
abbrev Folder := List (String × String)

/-- Why a path leads to no text. -/
inductive PathError where
  | missing
  | throughFile
  | isFolder
  | tooLong
deriving DecidableEq, Inhabited

/-- In the words of the system. -/
def PathError.message : PathError → String
  | missing => "No such file or directory (os error 2)"
  | throughFile => "Not a directory (os error 20)"
  | isFolder => "Is a directory (os error 21)"
  | tooLong => "File name too long (os error 36)"

namespace Folder

/-- The steps of a path; a step to the same folder is none. -/
def steps (path : String) : List (List Char) :=
  (path.toList.splitOn '/').filter fun cs => !cs.isEmpty && cs ≠ ['.']

/-- Whether the path says that it leads to a folder. -/
def namesFolder (path : String) : Bool :=
  match (path.toList.splitOn '/').reverse with
  | [] :: _ :: _ | ['.'] :: _ => true
  | _ => false

/-- The text of a file. -/
def read (f : Folder) (path : String) : Except PathError String :=
  let goal := steps path
  let named (place : List (List Char)) : Option String :=
    (f.find? fun file => steps file.1 == place).map (·.2)
  let isFile (k : Nat) : Bool := k ≠ 0 && (named (goal.take k)).isSome
  if path.isEmpty then .error .missing
  else if goal.any fun cs => 255 < (String.ofList cs).utf8ByteSize then .error .tooLong
  else if (List.range goal.length).any isFile then .error .throughFile
  else if path.startsWith "/" then .error (if goal.isEmpty then .isFolder else .missing)
  else
    match named goal with
    | some text => if namesFolder path then .error .throughFile else .ok text
    | none =>
      let isFolder := goal.isEmpty || f.any fun file => goal.isPrefixOf (steps file.1)
      .error (if isFolder then .isFolder else .missing)

/-- The folder as the world of a command. -/
def world (f : Folder) : World Id where
  read path := (f.read path).mapError PathError.message
  timed f := (f (), 0)
  level := none

end Folder

end ShadingMachine.Command
