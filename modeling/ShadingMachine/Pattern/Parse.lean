import ShadingMachine.Number.Numeral
import ShadingMachine.Pattern.Class

/-! How patterns are written. Alternatives are separated by bars; an alternative is a sequence
of characters, classes, conditions and groups, each with any number of repetitions after it. -/
namespace ShadingMachine.Pattern

/-- A group that is still open: the alternatives before the current one, and the parts of the
current one, both latest first. A part that only sets flags cannot be repeated. -/
structure Group where
  branches : List Pattern
  parts : List (Option Pattern)
  flags : Flags

namespace Group

def opened (flags : Flags) : Group := ⟨[], [], flags⟩

/-- The sequence of the parts. -/
def sequenced (g : Group) : Pattern :=
  match g.parts.filterMap id with
  | [] => .empty
  | p :: ps => ps.foldl (fun q p => .sequence p q) p

def pattern (g : Group) : Pattern := g.branches.foldl (fun q p => .either p q) g.sequenced

def add (g : Group) (p : Pattern) : Group := { g with parts := some p :: g.parts }

def nextBranch (g : Group) : Group := { g with branches := g.sequenced :: g.branches, parts := [] }

/-- Repeats the latest part. -/
def repeatLast? (g : Group) (least : Nat) (most : Option Nat) : Option Group :=
  match g.parts with
  | some p :: parts => some { g with parts := some (.repeated p least most) :: parts }
  | _ => none

end Group

def setFlag? (f : Flags) (letter : Char) (value : Bool) : Option Flags :=
  match letter with
  | 'i' => some { f with ignoreCase := value }
  | 'm' => some { f with multiLine := value }
  | 's' => some { f with dotAll := value }
  | 'R' => some { f with carriageReturns := value }
  | 'u' => some { f with unicode := value }
  | 'x' => some { f with spaced := value }
  | 'U' => some f
  | _ => none

/-- Flags up to a colon, which opens a group, or a closing parenthesis; those after a minus sign
are cleared. No flag stands twice, and the last character is not the minus sign. -/
def groupFlags? (f : Flags) (negated dangling : Bool) (seen : List Char) :
    List Char → Option (Flags × Bool × List Char)
  | [] => none
  | ':' :: rest => if dangling then none else some (f, true, rest)
  | ')' :: rest => if dangling || seen.isEmpty then none else some (f, false, rest)
  | '-' :: rest => if negated then none else groupFlags? f true true seen rest
  | c :: rest =>
    if seen.contains c then none
    else
      match setFlag? f c (!negated) with
      | some f => groupFlags? f negated false (c :: seen) rest
      | none => none

/-- The name of a group, up to its closing angle bracket. -/
def groupName? (cs : List Char) : Option (String × List Char) :=
  let isFirst (c : Char) : Bool := c == '_' || (Text.isWordChar c && !Text.isDecimalDigit c)
  let isLater (c : Char) : Bool :=
    c == '.' || c == '[' || c == ']' || c == '_' || Text.isWordChar c
  match cs.takeWhile (· != '>'), cs.dropWhile (· != '>') with
  | c :: name, _ :: rest =>
    if isFirst c && name.all isLater then some (String.ofList (c :: name), rest) else none
  | _, _ => none

/-- A decimal number with blanks around it. -/
def decimal? (f : Flags) (cs : List Char) : Option (Nat × List Char) :=
  let cs := cs.dropWhile Text.isBlank
  let isPart (c : Char) : Bool := c.isDigit || f.spaced && Text.isBlank c
  let digits := (cs.takeWhile isPart).filter Char.isDigit
  let n := Number.naturalOf digits
  if digits.isEmpty || 0x100000000 ≤ n then none
  else some (n, (cs.dropWhile isPart).dropWhile Text.isBlank)

/-- The counts of a repetition, after the opening brace. -/
def counts? (f : Flags) (cs : List Char) : Option ((Nat × Option Nat) × List Char) := do
  let (least, rest) ← decimal? f (f.skip cs)
  match rest with
  | '\x7d' :: rest => return ((least, some least), rest)
  | ',' :: rest =>
    match f.skip rest with
    | '\x7d' :: rest => return ((least, none), rest)
    | rest =>
      let (most, rest) ← decimal? f rest
      match rest with
      | '\x7d' :: rest => if most < least then none else return ((least, some most), rest)
      | _ => none
  | _ => none

/-- Whether as few rounds as possible are wanted does not matter for whether a text matches. -/
def skipLazy : List Char → List Char
  | '?' :: rest => rest
  | cs => cs

def lineStart (f : Flags) (before after : Option Char) : Bool :=
  if !f.multiLine then before.isNone
  else before.isNone || before == some '\n' ||
    (f.carriageReturns && before == some '\r' && after != some '\n')

def lineEnd (f : Flags) (before after : Option Char) : Bool :=
  if !f.multiLine then after.isNone
  else if f.carriageReturns then
    after.isNone || after == some '\r' || (after == some '\n' && before != some '\r')
  else after.isNone || after == some '\n'

/-- Any character but the end of a line; it may not be asked for without Unicode. -/
def dot? (f : Flags) : Option CharSet :=
  if !f.unicode then none
  else if f.dotAll then some fun _ => true
  else if f.carriageReturns then some CharSet.lineEnds.complement
  else some CharSet.lineFeedOnly.complement

def ofAtom? (f : Flags) : Atom → Option Pattern
  | .literal c => (literal? f c).map .one
  | .set s => some (.one s)
  | .look holds => some (.look holds)

/-- A pattern from inside a group, with the groups around it and the names in use. Each round
takes a character, so that the length of the text bounds their number. -/
def parse : Nat → Group → List Group → List String → List Char → Option Pattern
  | 0, _, _, _, _ => none
  | rounds + 1, g, outer, names, cs =>
    match g.flags.skip cs with
    | [] => if outer.isEmpty then some g.pattern else none
    | '(' :: rest =>
      match g.flags.skip rest with
      | '?' :: '=' :: _ | '?' :: '!' :: _ | '?' :: '<' :: '=' :: _ | '?' :: '<' :: '!' :: _ => none
      | '?' :: 'P' :: '<' :: rest | '?' :: '<' :: rest => do
        let (name, rest) ← groupName? rest
        if names.contains name then none
        parse rounds (.opened g.flags) (g :: outer) (name :: names) rest
      | '?' :: rest => do
        let (flags, isGroup, rest) ← groupFlags? g.flags false false [] rest
        if isGroup then parse rounds (.opened flags) (g :: outer) names rest
        else parse rounds { g with flags, parts := none :: g.parts } outer names rest
      | rest => parse rounds (.opened g.flags) (g :: outer) names rest
    | ')' :: rest =>
      match outer with
      | enclosing :: outer => parse rounds (enclosing.add g.pattern) outer names rest
      | [] => none
    | '|' :: rest => parse rounds g.nextBranch outer names rest
    | '[' :: rest => do
      let (s, rest) ← class? g.flags rest
      parse rounds (g.add (.one s)) outer names rest
    | '?' :: rest => do parse rounds (← g.repeatLast? 0 (some 1)) outer names (skipLazy rest)
    | '*' :: rest => do parse rounds (← g.repeatLast? 0 none) outer names (skipLazy rest)
    | '+' :: rest => do parse rounds (← g.repeatLast? 1 none) outer names (skipLazy rest)
    | '\x7b' :: rest => do
      let ((least, most), rest) ← counts? g.flags rest
      parse rounds (← g.repeatLast? least most) outer names (skipLazy (g.flags.skip rest))
    | '.' :: rest => do parse rounds (g.add (.one (← dot? g.flags))) outer names rest
    | '^' :: rest => parse rounds (g.add (.look (lineStart g.flags))) outer names rest
    | '$' :: rest => parse rounds (g.add (.look (lineEnd g.flags))) outer names rest
    | '\\' :: rest => do
      let (atom, rest) ← escape? g.flags rest
      parse rounds (g.add (← ofAtom? g.flags atom)) outer names rest
    | c :: rest => do parse rounds (g.add (.one (← literal? g.flags c))) outer names rest

/-- The largest weight of a pattern that is accepted. -/
def weightLimit : Nat := 327000

/-- The pattern that a text writes, if it writes one. -/
def ofString? (text : String) : Option Pattern :=
  (parse (text.length + 1) (.opened .standard) [] [] text.toList).filter (·.weight ≤ weightLimit)

/-- The engine of the command line, which tells no reasons. It stands in for that of a library: it
knows no classes of characters by their properties, bounds a pattern by its weight and not by the
room that it takes, and has no bound on how deep groups are nested. -/
instance : Engine where
  read text :=
    match ofString? text with
    | some p => .ok p.occursIn
    | none => .error none

end ShadingMachine.Pattern
