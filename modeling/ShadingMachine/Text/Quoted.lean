/-! Quoted text: how a string is written between double quotes and read back. -/
namespace ShadingMachine.Text.Quoted

/-- Quote, backslash and the three layout characters are written with a backslash. -/
def escape : List Char → List Char
  | [] => []
  | '"' :: cs => '\\' :: '"' :: escape cs
  | '\\' :: cs => '\\' :: '\\' :: escape cs
  | '\n' :: cs => '\\' :: 'n' :: escape cs
  | '\r' :: cs => '\\' :: 'r' :: escape cs
  | '\t' :: cs => '\\' :: 't' :: escape cs
  | c :: cs => c :: escape cs

/-- The written form with its quotes. -/
def quote (cs : List Char) : List Char := '"' :: escape cs ++ ['"']

/-- What a character after a backslash stands for. -/
def escapeMeaning? : Char → Option Char
  | 'n' => some '\n'
  | 'r' => some '\r'
  | 't' => some '\t'
  | '\\' => some '\\'
  | '"' => some '"'
  | _ => none

/-- An unknown escape and a last lone backslash stand for themselves. -/
def unescape : List Char → List Char
  | [] => []
  | '\\' :: c :: cs =>
    match escapeMeaning? c with
    | some d => d :: unescape cs
    | none => '\\' :: c :: unescape cs
  | c :: cs => c :: unescape cs

/-- The text between the quotes; a text that is not in quotes is left as it is. -/
def unquote (cs : List Char) : List Char :=
  match cs with
  | '"' :: rest => if rest.getLast? = some '"' then unescape rest.dropLast else cs
  | _ => cs

@[simp] theorem unescape_escape (cs : List Char) : unescape (escape cs) = cs := by
  fun_induction escape cs with
  | case1 => rfl
  | case2 _ ih | case3 _ ih | case4 _ ih | case5 _ ih | case6 _ ih =>
    simp [unescape, escapeMeaning?, ih]
  | case7 c cs _ h₂ _ _ _ ih => rw [unescape.eq_3 _ _ (fun _ _ h _ => h₂ h), ih]

@[simp] theorem unquote_quote (cs : List Char) : unquote (quote cs) = cs := by
  simp [quote, unquote, List.getLast?_append]

end ShadingMachine.Text.Quoted
