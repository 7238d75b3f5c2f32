import ShadingMachine.Pattern.Escape

/-! Bracketed character classes: characters, ranges, named and nested classes, and the
intersection, difference and symmetric difference of what stands on either side. -/
namespace ShadingMachine.Pattern

/-- A literal character as a set; without Unicode it must be of ASCII. -/
def literal? (f : Flags) (c : Char) : Option CharSet :=
  if !f.unicode && 0x80 ≤ c.toNat then none
  else if f.ignoreCase then some (CharSet.single c).ignoringCase
  else some (.single c)

/-- One character of a class, or what a backslash stands for. -/
def classAtom? (f : Flags) : List Char → Option (Atom × List Char)
  | [] => none
  | '\\' :: rest => escape? f rest
  | c :: rest => some (.literal c, rest)

/-- A character, a class by its letter, or a range. A minus sign before the closing bracket or
another minus sign makes no range. -/
def classItem? (f : Flags) (cs : List Char) : Option (CharSet × List Char) := do
  let (first, rest) ← classAtom? f cs
  let rest := f.skip rest
  let single : Option (CharSet × List Char) := do
    match first with
    | .literal c => return (← literal? f c, rest)
    | .set s => return (s, rest)
    | .look _ => none
  match rest with
  | '-' :: after =>
    match f.skip after with
    | ']' :: _ | '-' :: _ => single
    | after =>
      match first, ← classAtom? f after with
      | .literal low, (.literal high, rest) =>
        let _ ← literal? f high
        if high < low then none else return (.range low high, rest)
      | _, _ => none
  | _ => single

/-- A named class between colons, after its opening bracket. -/
def namedClass? : List Char → Option (CharSet × List Char)
  | ':' :: cs => do
    let (negated, cs) := match cs with
      | '^' :: cs => (true, cs)
      | _ => (false, cs)
    let name := cs.takeWhile (· != ':')
    match cs.dropWhile (· != ':') with
    | ':' :: ']' :: rest =>
      let s ← CharSet.named? (String.ofList name)
      return (if negated then s.complement else s, rest)
    | _ => none
  | _ => none

/-- Leading minus signs stand for themselves. -/
def leadingMinus : List Char → Bool × List Char
  | '-' :: rest => (true, (leadingMinus rest).2)
  | cs => (false, cs)

/-- The start of a class after its bracket: whether it is negated, what it holds so far, and the
rest. A closing bracket in front stands for itself. -/
def classStart (f : Flags) (cs : List Char) : Bool × CharSet × List Char :=
  let (negated, cs) := match f.skip cs with
    | '^' :: rest => (true, f.skip rest)
    | cs => (false, cs)
  match leadingMinus cs with
  | (true, rest) => (negated, .single '-', rest)
  | (false, ']' :: rest) => (negated, .single ']', rest)
  | (false, rest) => (negated, .empty, rest)

/-- What stands before an operator waits for what comes after it. -/
structure Pending where
  join : CharSet → CharSet → CharSet
  left : CharSet

def folded (f : Flags) (s : CharSet) : CharSet := if f.ignoreCase then s.ignoringCase else s

def finish (f : Flags) (pending : Option Pending) (s : CharSet) : CharSet :=
  match pending with
  | some p => p.join (folded f p.left) (folded f s)
  | none => folded f s

/-- Without Unicode a class may not reach beyond ASCII. -/
def close? (f : Flags) (negated : Bool) (s : CharSet) : Option CharSet :=
  if !negated then some s else if f.unicode then some s.complement else none

/-- A class from where its items begin to its closing bracket. Each item takes a character, so
that the length of the text bounds the number of rounds. -/
def classItems (f : Flags) :
    Nat → Option Pending → CharSet → List Char → Option (CharSet × List Char)
  | 0, _, _, _ => none
  | rounds + 1, pending, s, cs =>
    match f.skip cs with
    | [] => none
    | ']' :: rest => some (finish f pending s, rest)
    | '&' :: '&' :: rest =>
      classItems f rounds (some ⟨.inter, finish f pending s⟩) .empty rest
    | '-' :: '-' :: rest => classItems f rounds (some ⟨.diff, finish f pending s⟩) .empty rest
    | '~' :: '~' :: rest =>
      classItems f rounds (some ⟨.symmDiff, finish f pending s⟩) .empty rest
    | '[' :: rest =>
      match namedClass? rest with
      | some (t, rest) => classItems f rounds pending (s.union t) rest
      | none => do
        let (negated, start, rest) := classStart f rest
        let (t, rest) ← classItems f rounds none start rest
        classItems f rounds pending (s.union (← close? f negated t)) rest
    | cs => do
      let (t, rest) ← classItem? f cs
      classItems f rounds pending (s.union t) rest

/-- A class after its opening bracket. -/
def class? (f : Flags) (cs : List Char) : Option (CharSet × List Char) := do
  let (negated, start, rest) := classStart f cs
  let (s, rest) ← classItems f (rest.length + 1) none start rest
  return (← close? f negated s, rest)

end ShadingMachine.Pattern
