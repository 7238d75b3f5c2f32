/-! Edit distance between words, and the candidate closest to a misspelt one. -/
namespace ShadingMachine.Text

/-- The rest of a row of the distance table: `left` is the cell before, `diagonal` the cell
above that one. -/
def extendRow (c : Char) (left diagonal : Nat) : List Char → List Nat → List Nat
  | d :: ds, above :: row =>
    let cell := min (min (above + 1) (left + 1)) (diagonal + if c = d then 0 else 1)
    cell :: extendRow c cell above ds row
  | _, _ => []

/-- From the distances to every initial part of `ds` to those after one more character. -/
def nextRow (ds : List Char) (row : List Nat) (c : Char) : List Nat :=
  match row with
  | [] => []
  | first :: rest => (first + 1) :: extendRow c (first + 1) first ds rest

/-- The least number of insertions, deletions and substitutions of one character. -/
def editDistance (cs ds : List Char) : Nat :=
  (cs.foldl (nextRow ds) (List.range (ds.length + 1))).getLastD 0

@[simp] theorem editDistance_nil_left (ds : List Char) : editDistance [] ds = ds.length := by
  simp [editDistance, List.range_succ]

/-- The best candidate so far with its distance, or how far the first one may be. -/
def closer (name : List Char) (best : Option String × Nat) (candidate : String) :
    Option String × Nat :=
  let d := editDistance name candidate.toList
  if d < best.2 || (d == best.2 && best.1.isNone) then (some candidate, d) else best

/-- The first candidate of least distance, if that is at most half of the name's length
(and at most one for a shorter name). -/
def closest (name : String) (candidates : List String) : Option String :=
  let limit := max (name.toList.length / 2) 1
  (candidates.foldl (closer name.toList) (none, limit)).1

@[simp] theorem closest_nil (name : String) : closest name [] = none := rfl

end ShadingMachine.Text
