import ShadingMachine.Pattern.Basic

/-! What a backslash introduces in a pattern. -/
namespace ShadingMachine.Pattern

structure Flags where
  ignoreCase : Bool
  multiLine : Bool
  /-- The dot stands for a line end too. -/
  dotAll : Bool
  /-- A carriage return ends a line as well. -/
  carriageReturns : Bool
  unicode : Bool
  /-- Blanks and comments between the parts of a pattern mean nothing. -/
  spaced : Bool
deriving DecidableEq

def Flags.standard : Flags := ⟨false, false, false, false, true, false⟩

/-- Leaves out blanks and comments, which run from a number sign to the end of the line. -/
def skipBlanks (inComment : Bool) : List Char → List Char
  | [] => []
  | c :: cs =>
    if inComment then skipBlanks (c != '\n') cs
    else if c = '#' then skipBlanks true cs
    else if Text.isBlank c then skipBlanks false cs
    else c :: cs

def Flags.skip (f : Flags) (cs : List Char) : List Char :=
  if f.spaced then skipBlanks false cs else cs

/-- What a backslash or a single character stands for. -/
inductive Atom where
  | literal (c : Char)
  | set (s : CharSet)
  | look (holds : Option Char → Option Char → Bool)

/-- Whether a word character is there. -/
def wordAt (f : Flags) (c : Option Char) : Bool :=
  (c.map (if f.unicode then Text.isWordChar else CharSet.asciiWord)).getD false

def wordBoundary (f : Flags) (before after : Option Char) : Bool :=
  wordAt f before != wordAt f after

def wordStart (f : Flags) (before after : Option Char) : Bool :=
  !wordAt f before && wordAt f after

def wordEnd (f : Flags) (before after : Option Char) : Bool :=
  wordAt f before && !wordAt f after

/-- The classes named by a letter; without Unicode they may not reach beyond ASCII. -/
def letterClass? (f : Flags) (letter : Char) : Option CharSet :=
  let choose (wide narrow : CharSet) : CharSet := if f.unicode then wide else narrow
  let digit := choose Text.isDecimalDigit Char.isDigit
  let blank := choose Text.isBlank CharSet.asciiBlank
  let word := choose Text.isWordChar CharSet.asciiWord
  let negated (s : CharSet) : Option CharSet := if f.unicode then some s.complement else none
  match letter with
  | 'd' => some digit
  | 's' => some blank
  | 'w' => some word
  | 'D' => negated digit
  | 'S' => negated blank
  | 'W' => negated word
  | _ => none

/-- Characters that mean themselves after a backslash: those of ASCII but letters, digits and
angle brackets. -/
def isEscapable (c : Char) : Bool := c.toNat < 0x80 && !c.isAlphanum && c != '<' && c != '>'

def hexDigit? (c : Char) : Option Nat :=
  if c.isDigit then some (c.toNat - 48)
  else if 'a' ≤ c ∧ c ≤ 'f' then some (c.toNat - 87)
  else if 'A' ≤ c ∧ c ≤ 'F' then some (c.toNat - 55)
  else none

/-- The character that hexadecimal digits name, if there are any and they name one. -/
def hexChar? (digits : List Char) : Option Char := do
  let values ← digits.mapM hexDigit?
  let n := values.foldl (fun n d => 16 * n + d) 0
  if values.isEmpty || !n.isValidChar then none else some (Char.ofNat n)

/-- Takes `n` characters, blanks between them left out. -/
def takeSpaced (f : Flags) : Nat → List Char → Option (List Char × List Char)
  | 0, cs => some ([], cs)
  | n + 1, cs => do
    match f.skip cs with
    | [] => none
    | c :: rest =>
      let (taken, rest) ← takeSpaced f n rest
      return (c :: taken, rest)

/-- A character by its number: two, four or eight digits, or any number of them in braces. -/
def hexEscape? (f : Flags) (width : Nat) (cs : List Char) : Option (Char × List Char) := do
  match f.skip cs with
  | '\x7b' :: rest =>
    let digits := rest.takeWhile (· != '\x7d')
    let rest := rest.dropWhile (· != '\x7d')
    if rest.isEmpty then none
    let digits := if f.spaced then digits.filter (!Text.isBlank ·) else digits
    return (← hexChar? digits, rest.drop 1)
  | cs =>
    let (digits, rest) ← takeSpaced f width cs
    return (← hexChar? digits, rest)

/-- The kind of word boundary in braces; braces that begin otherwise are left alone. -/
def boundaryKind? (f : Flags) (cs : List Char) :
    Option ((Option Char → Option Char → Bool) × List Char) :=
  let isNameChar (c : Char) : Bool := c.isAlpha || c == '-'
  match cs with
  | '\x7b' :: inner =>
    match f.skip inner with
    | [] => none
    | c :: inner =>
      if !isNameChar c then some (wordBoundary f, cs)
      else
        let kept := if f.spaced then (c :: inner).filter (!Text.isBlank ·) else c :: inner
        let name := kept.takeWhile isNameChar
        match kept.dropWhile isNameChar with
        | '\x7d' :: _ =>
          let rest := (inner.dropWhile (· != '\x7d')).drop 1
          match String.ofList name with
          | "start" => some (wordStart f, rest)
          | "end" => some (wordEnd f, rest)
          | "start-half" => some (fun before _ => !wordAt f before, rest)
          | "end-half" => some (fun _ after => !wordAt f after, rest)
          | _ => none
        | _ => none
  | _ => some (wordBoundary f, cs)

/-- What follows a backslash, and the rest. -/
def escape? (f : Flags) : List Char → Option (Atom × List Char)
  | [] => none
  | c :: rest =>
    if isEscapable c then some (.literal c, rest)
    else if let some s := letterClass? f c then some (.set s, rest)
    else
      match c with
      | 'x' => (hexEscape? f 2 rest).map fun p => (.literal p.1, p.2)
      | 'u' => (hexEscape? f 4 rest).map fun p => (.literal p.1, p.2)
      | 'U' => (hexEscape? f 8 rest).map fun p => (.literal p.1, p.2)
      | 'a' => some (.literal '\x07', rest)
      | 'f' => some (.literal '\x0c', rest)
      | 't' => some (.literal '\t', rest)
      | 'n' => some (.literal '\n', rest)
      | 'r' => some (.literal '\r', rest)
      | 'v' => some (.literal '\x0b', rest)
      | 'A' => some (.look fun before _ => before.isNone, rest)
      | 'z' => some (.look fun _ after => after.isNone, rest)
      | 'b' => (boundaryKind? f rest).map fun p => (.look p.1, p.2)
      | 'B' => some (.look fun before after => !wordBoundary f before after, rest)
      | '<' => some (.look (wordStart f), rest)
      | '>' => some (.look (wordEnd f), rest)
      | _ => none

end ShadingMachine.Pattern
