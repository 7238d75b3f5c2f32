import ShadingMachine.Text.Span

/-! A text with an index of its lines: where each line starts, and which line and column
an offset belongs to. -/
namespace ShadingMachine.Text

/-- The offsets just after each newline of a text that begins at `pos`. -/
def lineStartsFrom : Nat → List Char → List Nat
  | _, [] => []
  | pos, c :: cs =>
    let next := pos + c.utf8Size
    if c = '\n' then next :: lineStartsFrom next cs else lineStartsFrom next cs

/-- `lineStarts` lists the first offset of every line, in order. -/
structure Source where
  text : List Char
  lineStarts : List Nat

namespace Source

def ofChars (text : List Char) : Source := ⟨text, 0 :: lineStartsFrom 0 text⟩

@[simp] theorem text_ofChars (cs : List Char) : (ofChars cs).text = cs := rfl

/-- The part of the text in a range; offsets past the end stand for the end. There is none where
an end of the range is inside a character. -/
def slice? (s : Source) (span : Span) : Option (List Char) :=
  let start := min span.start (byteSize s.text)
  cut? s.text ⟨start, max start (min span.stop (byteSize s.text))⟩

/-- The part of the text in a range between characters. -/
def slice (s : Source) (span : Span) : List Char := (s.slice? span).getD []

/-- Line and column of an offset, both from zero; columns count characters. -/
def lineCol (s : Source) (offset : Nat) : Nat × Nat :=
  let offset := min offset (byteSize s.text)
  let line := (s.lineStarts.takeWhile (· ≤ offset)).length - 1
  let start := s.lineStarts.getD line 0
  (line, (takeBytes (offset - start) (dropBytes start s.text)).length)

end Source

end ShadingMachine.Text
