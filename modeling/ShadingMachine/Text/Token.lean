import ShadingMachine.Text.Blank
import ShadingMachine.Text.Diagnostic

/-! The tokens of a program text. Blanks and newlines separate tokens and mean nothing else;
a comment runs from `#` to the end of its line. Scanning is by pieces: each takes at least one
character, and together the pieces are the text. -/
namespace ShadingMachine.Text

inductive TokenKind where
  | word
  | number
  | string
  | colon
  | leftBracket
  | rightBracket
  | endOfInput
deriving DecidableEq, Inhabited

def TokenKind.describe : TokenKind → String
  | word => "word"
  | number => "number"
  | string => "string"
  | colon => "':'"
  | leftBracket => "'['"
  | rightBracket => "']'"
  | endOfInput => "end of input"

structure Token where
  kind : TokenKind
  text : String
  span : Span
deriving DecidableEq, Inhabited

def isNameStart (c : Char) : Bool := c == '_' || c.isAlpha

def isNamePart (c : Char) : Bool := isNameStart c || c.isDigit

/-- What one piece of a text is. -/
inductive Piece where
  | token (kind : TokenKind)
  | fault (cause : Cause)
  | gap

/-- A sign or a point begins a number only when digits follow. -/
def startsNumber : List Char → Bool
  | '.' :: d :: _ => d.isDigit
  | '-' :: '.' :: d :: _ | '+' :: '.' :: d :: _ => d.isDigit
  | '-' :: d :: _ | '+' :: d :: _ => d.isDigit
  | _ => false

/-- The characters of a string literal after its opening quote, whether it is closed, and the
rest. A backslash takes the next character with it. -/
def stringTail : List Char → Bool × List Char × List Char
  | [] => (false, [], [])
  | '"' :: cs => (true, ['"'], cs)
  | '\n' :: cs => (false, [], '\n' :: cs)
  | '\\' :: c :: cs =>
    let (closed, used, rest) := stringTail cs
    (closed, '\\' :: c :: used, rest)
  | c :: cs =>
    let (closed, used, rest) := stringTail cs
    (closed, c :: used, rest)

theorem stringTail_append (cs : List Char) : (stringTail cs).2.1 ++ (stringTail cs).2.2 = cs := by
  fun_induction stringTail cs with
  | case1 | case2 | case3 => rfl
  | case4 c cs closed used rest h ih | case5 c cs _ _ _ closed used rest h ih =>
    simp only [h] at ih; simp [ih]

def signPart : List Char → List Char × List Char
  | '-' :: cs => (['-'], cs)
  | '+' :: cs => (['+'], cs)
  | cs => ([], cs)

def digitsPart (cs : List Char) : List Char × List Char :=
  (cs.takeWhile Char.isDigit, cs.dropWhile Char.isDigit)

def fractionPart : List Char → List Char × List Char
  | '.' :: cs => ('.' :: (digitsPart cs).1, (digitsPart cs).2)
  | cs => ([], cs)

/-- An exponent without digits is no part of the number. -/
def exponentPart : List Char → List Char × List Char
  | [] => ([], [])
  | e :: cs =>
    let sign := signPart cs
    let digits := digitsPart sign.2
    if (e == 'e' || e == 'E') && !digits.1.isEmpty then (e :: sign.1 ++ digits.1, digits.2)
    else ([], e :: cs)

/-- Sign, digits, fraction and exponent of a number and what follows it. -/
def numberPart (cs : List Char) : List Char × List Char :=
  let sign := signPart cs
  let whole := digitsPart sign.2
  let fraction := fractionPart whole.2
  let exponent := exponentPart fraction.2
  (sign.1 ++ whole.1 ++ fraction.1 ++ exponent.1, exponent.2)

theorem signPart_append (cs : List Char) : (signPart cs).1 ++ (signPart cs).2 = cs := by
  unfold signPart; split <;> rfl

theorem digitsPart_append (cs : List Char) : (digitsPart cs).1 ++ (digitsPart cs).2 = cs := by
  simp [digitsPart]

theorem fractionPart_append (cs : List Char) :
    (fractionPart cs).1 ++ (fractionPart cs).2 = cs := by
  unfold fractionPart; split <;> simp [digitsPart_append]

theorem exponentPart_append (cs : List Char) :
    (exponentPart cs).1 ++ (exponentPart cs).2 = cs := by
  unfold exponentPart
  split
  · rfl
  · simp only
    split
    · simp [digitsPart_append, signPart_append]
    · rfl

theorem numberPart_append (cs : List Char) : (numberPart cs).1 ++ (numberPart cs).2 = cs := by
  simp only [numberPart, List.append_assoc, exponentPart_append, fractionPart_append,
    digitsPart_append, signPart_append]

/-- A number glued to letters is one malformed piece, not two tokens. -/
def numberPiece (cs : List Char) : Piece × List Char × List Char :=
  let (number, rest) := numberPart cs
  let glued := rest.takeWhile isNamePart
  let text := number ++ glued
  if glued.isEmpty then (.token .number, number, rest)
  else (.fault (.invalidNumber (String.ofList text)), text, rest.dropWhile isNamePart)

/-- The piece that begins with `c`: its kind, its characters, and the rest of the text. -/
def piece (c : Char) (cs : List Char) : Piece × List Char × List Char :=
  if isBlank c then (.gap, [c], cs)
  else if c = '#' then (.gap, c :: cs.takeWhile (· != '\n'), cs.dropWhile (· != '\n'))
  else if c = ':' then (.token .colon, [c], cs)
  else if c = '[' then (.token .leftBracket, [c], cs)
  else if c = ']' then (.token .rightBracket, [c], cs)
  else if c = '"' then
    let (closed, used, rest) := stringTail cs
    (if closed then .token .string else .fault .unterminatedString, c :: used, rest)
  else if c.isDigit || startsNumber (c :: cs) then numberPiece (c :: cs)
  else if isNameStart c then
    (.token .word, c :: cs.takeWhile isNamePart, cs.dropWhile isNamePart)
  else (.fault (.unexpectedChar c), [c], cs)

/-- A piece and what follows it are the text. -/
theorem piece_append (c : Char) (cs : List Char) :
    (piece c cs).2.1 ++ (piece c cs).2.2 = c :: cs := by
  unfold piece
  split; · rfl
  split; · simp
  split; · rfl
  split; · rfl
  split; · rfl
  split; · simp [stringTail_append]
  split
  · have h := numberPart_append (c :: cs)
    simp only [numberPiece]
    split
    · exact h
    · simp only [List.append_assoc, List.takeWhile_append_dropWhile]; exact h
  split; · simp
  · rfl

theorem numberPart_ne_nil (c : Char) (cs : List Char)
    (h : (c.isDigit || startsNumber (c :: cs)) = true) : (numberPart (c :: cs)).1 ≠ [] := by
  by_cases h₁ : c = '-'
  · subst h₁; simp [numberPart, signPart]
  by_cases h₂ : c = '+'
  · subst h₂; simp [numberPart, signPart]
  have hs : signPart (c :: cs) = ([], c :: cs) := by
    unfold signPart; split <;> simp_all
  by_cases hd : c.isDigit
  · simp [numberPart, hs, digitsPart, hd]
  · have hp : c = '.' := by
      simp only [hd, Bool.false_or] at h
      unfold startsNumber at h; split at h <;> simp_all
    subst hp
    simp [numberPart, hs, digitsPart, fractionPart]

theorem piece_used_ne_nil (c : Char) (cs : List Char) : (piece c cs).2.1 ≠ [] := by
  unfold piece
  split; · simp
  split; · simp
  split; · simp
  split; · simp
  split; · simp
  split; · simp
  split
  · rename_i h
    have hn := numberPart_ne_nil c cs h
    simp only [numberPiece]
    split <;> simp [hn]
  split <;> simp

theorem piece_rest_length (c : Char) (cs : List Char) :
    (piece c cs).2.2.length < (c :: cs).length := by
  have h := congrArg List.length (piece_append c cs)
  have hp := List.length_pos_iff.mpr (piece_used_ne_nil c cs)
  rw [List.length_append] at h
  omega

section
-- The equations of the scan would be searched for by unfolding what a piece is.
attribute [local irreducible] piece

/-- The tokens and faults of a text that begins at `pos`. -/
def scanFrom (pos : Nat) : List Char → List Token × List Diagnostic
  | [] => ([⟨.endOfInput, "", .point pos⟩], [])
  | c :: cs =>
    let next := pos + byteSize (piece c cs).2.1
    let (tokens, faults) := scanFrom next (piece c cs).2.2
    match (piece c cs).1 with
    | .token kind => (⟨kind, String.ofList (piece c cs).2.1, ⟨pos, next⟩⟩ :: tokens, faults)
    | .fault cause => (tokens, .ofCause .error cause (some ⟨pos, next⟩) :: faults)
    | .gap => (tokens, faults)
termination_by cs => cs.length
decreasing_by exact piece_rest_length c cs

end

def scan (cs : List Char) : List Token × List Diagnostic := scanFrom 0 cs

@[simp] theorem scan_nil : scan [] = ([⟨.endOfInput, "", ⟨0, 0⟩⟩], []) := by
  simp [scan, scanFrom, Span.point]

end ShadingMachine.Text
