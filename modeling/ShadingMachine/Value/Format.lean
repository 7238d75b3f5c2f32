import ShadingMachine.Value.Basic

/-! Format strings. A percent sign and one of the letters `f d s p c m` is a conversion and
stands for the next argument; two percent signs stand for one. Everything else is copied, and so
is a conversion without an argument. -/
namespace ShadingMachine.Format

def isConversion (c : Char) : Bool := ['f', 'd', 's', 'p', 'c', 'm'].contains c

/-- An argument at a point, by the letter of its conversion: `f` and `d` write a float with its
fraction and without; everything else is written as text. -/
def convert (letter : Char) (v : Value) (i : Nat) : String :=
  match letter, v.data.storage with
  | 'f', .float => Number.Layout.compact.write (v.getFloat i)
  | 'd', .float => toString (Scalar.truncate (v.getFloat i))
  | _, _ => v.text i

/-- The format with its conversions replaced by the arguments at a point. -/
def expand : List Char → List Value → Nat → List Char
  | '%' :: c :: rest, args, i =>
    if c = '%' then '%' :: expand rest args i
    else if isConversion c then
      match args with
      | v :: vs => (convert c v i).toList ++ expand rest vs i
      | [] => '%' :: c :: expand rest [] i
    else '%' :: c :: expand rest args i
  | c :: rest, args, i => c :: expand rest args i
  | [], _, _ => []

@[simp] theorem expand_nil (args : List Value) (i : Nat) : expand [] args i = [] := by
  simp [expand]

/-- The format and the arguments of a point, as text. -/
def write (format : Value) (args : List Value) (i : Nat) : String :=
  String.ofList (expand (format.getString i).toList args i)

end ShadingMachine.Format
