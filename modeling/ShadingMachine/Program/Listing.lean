import ShadingMachine.Number.Layout
import ShadingMachine.Program.Basic
import ShadingMachine.Text.Quoted

/-! The listing of a program: the text that loads as that program. -/
namespace ShadingMachine

namespace Declaration

def listing (d : Declaration) : String :=
  let flags := (if d.param then "param " else "") ++ (if d.output then "output " else "")
  let suffix := match d.arrayLength with
    | some n => s!"[{n}]"
    | none => ""
  flags ++ s!"{d.detail.keyword} {d.type.keyword} {d.name}" ++ suffix ++ "\n"

end Declaration

namespace Program

/-- An element in the place of an operand. -/
def operandListing (p : Program) : Element → String
  | .float x => Number.Layout.compact.write x
  | .string s => String.ofList (Text.Quoted.quote s.toList)
  | .variable (.declared k) =>
    match p.locals[k]? with
    | some d => d.name
    | none => s!"<local {k}>"
  | .variable (.graphics x) => x.name
  | .label l => toString l.id
  | .unresolved id => toString id
  | .opcode name _ => name

/-- A text and whether its last line is an instruction that may go on. -/
structure Lines where
  text : String
  isOpen : Bool

/-- The labels at a position, each on a line of its own. -/
def Lines.addLabels (l : Lines) (labels : List Label) (position : Nat) : Lines :=
  match labels.filter (·.position == position) with
  | [] => l
  | here =>
    let lines := here.map fun x => s!":{x.id}\n"
    ⟨l.text ++ (if l.isOpen then "\n" else "") ++ String.join lines, false⟩

def Lines.addElement (l : Lines) (p : Program) : Element → Lines
  | .opcode name _ => ⟨l.text ++ (if l.isOpen then "\n\t" else "\t") ++ name, true⟩
  | e => { l with text := l.text ++ " " ++ p.operandListing e }

/-- Instructions stand on lines of their own, a label before the element it names. -/
def segmentListing (p : Program) (s : Segment) : String :=
  let add (l : Lines) (e : Element × Nat) : Lines := (l.addLabels s.labels e.2).addElement p e.1
  let l := s.elements.toList.zipIdx.foldl add ⟨"", false⟩
  (l.addLabels s.labels s.length).text ++
    (if (l.addLabels s.labels s.length).isOpen then "\n" else "")

def listing (p : Program) : String :=
  s!"{p.kind.keyword}\nAQSIS_V {p.version}\nUSES {p.uses.bits}\n" ++
  "\nsegment Data\n" ++ String.join (p.locals.toList.map Declaration.listing) ++
  "\nsegment Init\n" ++ p.segmentListing p.init ++
  "\nsegment Code\n" ++ p.segmentListing p.code

end Program

end ShadingMachine
