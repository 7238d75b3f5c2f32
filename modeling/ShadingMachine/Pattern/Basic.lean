import ShadingMachine.Pattern.Engine
import ShadingMachine.Text.Blank
import ShadingMachine.Text.Folding
import ShadingMachine.Text.WordChar

/-! Patterns that texts are searched for, made of sets of characters. A pattern leads from a place
in a text to the places where it can end, so that a search needs no backtracking. -/
namespace ShadingMachine

/-- A set of characters. -/
abbrev CharSet := Char → Bool

namespace CharSet

def empty : CharSet := fun _ => false
def single (c : Char) : CharSet := (· == c)
def range (low high : Char) : CharSet := fun c => low ≤ c && c ≤ high
def union (s t : CharSet) : CharSet := fun c => s c || t c
def inter (s t : CharSet) : CharSet := fun c => s c && t c
def diff (s t : CharSet) : CharSet := fun c => s c && !t c
def symmDiff (s t : CharSet) : CharSet := fun c => s c != t c
def complement (s : CharSet) : CharSet := fun c => !s c

/-- With every character that differs from a member only in case. -/
def ignoringCase (s : CharSet) : CharSet := fun c => (Text.caseVariants c).any s

def lineFeedOnly : CharSet := single '\n'
def lineEnds : CharSet := fun c => c == '\n' || c == '\r'

def asciiWord : CharSet := fun c => c.isAlphanum || c == '_'
def asciiBlank : CharSet := fun c => c == ' ' || (9 ≤ c.toNat && c.toNat ≤ 13)

/-- The ASCII classes by the names that stand between colons. -/
def named? (name : String) : Option CharSet :=
  match name with
  | "alnum" => some Char.isAlphanum
  | "alpha" => some Char.isAlpha
  | "ascii" => some fun c => c.toNat < 0x80
  | "blank" => some fun c => c == ' ' || c == '\t'
  | "cntrl" => some fun c => c.toNat < 0x20 || c.toNat == 0x7F
  | "digit" => some Char.isDigit
  | "graph" => some (range '!' '~')
  | "lower" => some Char.isLower
  | "print" => some (range ' ' '~')
  | "punct" => some fun c => range '!' '~' c && !c.isAlphanum
  | "space" => some asciiBlank
  | "upper" => some Char.isUpper
  | "word" => some asciiWord
  | "xdigit" => some fun c => c.isDigit || range 'A' 'F' c || range 'a' 'f' c
  | _ => none

end CharSet

inductive Pattern where
  | empty
  | one (set : CharSet)
  /-- A condition on the characters before and after a place, if there are any. -/
  | look (holds : Option Char → Option Char → Bool)
  | sequence (first second : Pattern)
  | either (first second : Pattern)
  /-- From `least` to `most` times, without a bound if there is no `most`. -/
  | repeated (p : Pattern) (least : Nat) (most : Option Nat)

namespace Pattern

/-- Applied `n` times. -/
def iterate (f : List Nat → List Nat) : Nat → List Nat → List Nat
  | 0, places => places
  | n + 1, places => iterate f n (f places)

/-- Applied up to `n` times, with the places passed on the way. -/
def closure (f : List Nat → List Nat) : Nat → List Nat → List Nat
  | 0, places => places
  | n + 1, places => closure f n (places ++ f places).eraseDups

/-- The places of a text where a pattern can end that starts at one of the given places. After
more rounds than there are places, another round of a repetition changes nothing. -/
def ends (text : Array Char) : Pattern → List Nat → List Nat
  | empty, places => places
  | one set, places =>
    (places.filter fun i => (text[i]?.map set).getD false).map (· + 1)
  | look holds, places =>
    places.filter fun i => holds (if i = 0 then none else text[i - 1]?) text[i]?
  | sequence p q, places => ends text q (ends text p places)
  | either p q, places => (ends text p places ++ ends text q places).eraseDups
  | repeated p least most, places =>
    let rounds := text.size + 1
    let more := match most with
      | some n => min (n - least) rounds
      | none => rounds
    closure (ends text p) more (iterate (ends text p) (min least rounds) places)

/-- Whether a part of the text matches. -/
def occursIn (p : Pattern) (text : String) : Bool :=
  let cs := text.toList.toArray
  !(p.ends cs (List.range (cs.size + 1))).isEmpty

/-- The number of characters that the pattern stands for when its repetitions are written
out. -/
def weight : Pattern → Nat
  | empty | look _ => 0
  | one _ => 1
  | sequence p q | either p q => p.weight + q.weight
  | repeated p least most => p.weight * max (max least (most.getD 0)) 1

end Pattern

end ShadingMachine
