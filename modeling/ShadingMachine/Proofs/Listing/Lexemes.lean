import ShadingMachine.Program.Listing
import ShadingMachine.Proofs.Program.WellFormed
import ShadingMachine.Proofs.Text.Lexemes

/-! The lexemes of a listing. A line of a listing may go on as long as it is open; the lines of a
segment are followed by the positions of its elements. -/
namespace ShadingMachine

open Text

/-- What the text of an operand can say. A local with the name of the word that begins a segment
may be declared but not referred to. -/
def Element.Listable (ds : Array Declaration) : Element → Prop
  | .float x => x.isFinite = true
  | .string s => '\x00' ∉ s.toList
  | .variable (.declared k) => ∀ d, ds[k]? = some d → d.name ≠ "segment"
  | _ => True

/-- A version that is read from the rest of its line. -/
structure IsVersion (v : String) : Prop where
  nonempty : v.toList ≠ []
  trimmed : trim v.toList = v.toList
  line : ∀ c ∈ v.toList, c ∉ ['\n', '\r', '\x00', '#']
  clean : (scan v.toList).2 = []

theorem IsVersion.ne {v : String} (h : IsVersion v) {c : Char} (hc : c ∈ v.toList) :
    c ≠ '\n' ∧ IsPlain c ∧ c ≠ '#' := by
  have hline := h.line c hc
  simp only [List.mem_cons, not_or] at hline
  obtain ⟨hnewline, hreturn, hnul, hcomment, -⟩ := hline
  exact ⟨hnewline, ⟨hreturn, hnul⟩, hcomment⟩

/-- What the text of a program can say. Masks and labels have 32 bits, array lengths 64. -/
structure Program.Listable (p : Program) : Prop where
  version : IsVersion p.version
  uses : p.uses.bits < 0x100000000
  names : ∀ d ∈ p.locals, isName d.name = true
  lengths : ∀ d ∈ p.locals, ∀ n, d.arrayLength = some n → n < 0x10000000000000000
  elements : ∀ kind, ∀ e ∈ (p.segment kind).elements, e.Listable p.locals
  ids : ∀ kind, ∀ l ∈ (p.segment kind).labels, l.id < 0x100000000

theorem toString_string (s : String) : toString s = s := rfl

/-! Declarations -/

def lengthLexemes : Option Nat → List Lexeme
  | some n => [(.leftBracket, "["), (.number, toString n), (.rightBracket, "]")]
  | none => []

def Declaration.lexemes (d : Declaration) : List Lexeme :=
  (if d.param then [(.word, "param")] else []) ++ (if d.output then [(.word, "output")] else []) ++
  [(.word, d.detail.keyword), (.word, d.type.keyword), (.word, d.name)] ++
  lengthLexemes d.arrayLength

theorem isSeparator_space : IsSeparator ' ' := by decide

theorem isSeparator_newline : IsSeparator '\n' := by decide

theorem closed_space : Closed [' '] [] := closed_blank (by decide) (by decide)

theorem closed_newline : Closed ['\n'] [] := closed_blank (by decide) (by decide)

theorem isName_detail (x : Detail) : isName x.keyword = true := by cases x <;> decide

theorem isName_type (t : ValueType) : isName t.keyword = true := by cases t <;> decide

theorem isName_graphics (x : GraphicsVariable) : isName x.name = true := by cases x <;> decide

theorem isName_kind (k : ShaderKind) : isName k.keyword = true := by cases k <;> decide

theorem Mnemonic.isName_table : ∀ e ∈ table, isName e.1 = true := by decide +kernel

theorem open_spaced {cs : List Char} {ls : List Lexeme} (h : Open cs ls) : Open (' ' :: cs) ls :=
  closed_space.append_open h

/-- Texts that follow each other. -/
theorem closed_join {α : Type} {f : α → String} {g : α → List Lexeme} (as : List α)
    (h : ∀ a ∈ as, Closed (f a).toList (g a)) :
    Closed (String.join (as.map f)).toList (as.flatMap g) := by
  induction as with
  | nil => exact closed_nil
  | cons a as ih =>
    obtain ⟨ha, has⟩ := List.forall_mem_cons.mp h
    simpa using ha.append (ih has)

/-- A word and a space, if the flag is set. -/
theorem closed_flag (flag : Bool) (word : String) (h : isName word = true) :
    Closed (if flag then word ++ " " else "").toList (if flag then [(.word, word)] else []) := by
  cases flag with
  | false => exact closed_nil
  | true =>
    have hword := (open_name h).append_closed isSeparator_space closed_space
    rw [List.append_nil] at hword
    simpa using hword

theorem Declaration.closed_listing {d : Declaration} (h : isName d.name = true) :
    Closed d.listing.toList d.lexemes := by
  have hflags := (closed_flag d.param "param" (by decide)).append
    (closed_flag d.output "output" (by decide))
  have hwords := ((open_name (isName_detail d.detail)).append isSeparator_space
    (open_spaced (open_name (isName_type d.type)))).append isSeparator_space
    (open_spaced (open_name h))
  have hhead := hflags.append_open hwords
  cases hlength : d.arrayLength with
  | none =>
    have hline := hhead.append_closed isSeparator_newline closed_newline
    simpa [listing, lexemes, lengthLexemes, hlength, toString_string] using hline
  | some n =>
    have hbracket := ((closed_leftBracket.append_open (open_natural n)).append_closed
      (by decide) closed_rightBracket).append closed_newline
    have hline := hhead.append_closed (x := '[') (by decide) hbracket
    simpa [listing, lexemes, lengthLexemes, hlength, toString_string] using hline

/-! Segments -/

/-- What is read for an element: its text, as an opcode or as an operand. -/
def Program.elementLexeme (p : Program) (e : Element) : Lexeme :=
  (match e with
    | .opcode .. | .variable _ => .word
    | .string _ => .string
    | .float _ | .label _ | .unresolved _ => .number, p.operandListing e)

def Label.lexemes (l : Label) : List Lexeme := [(.colon, ":"), (.number, toString l.id)]

def Segment.labelsAt (s : Segment) (position : Nat) : List Label :=
  s.labels.filter (·.position == position)

/-- From a position on, with the elements that stand there. -/
def Program.lexemesFrom (p : Program) (s : Segment) (position : Nat) : List Element → List Lexeme
  | [] => (s.labelsAt position).flatMap Label.lexemes
  | e :: es =>
    (s.labelsAt position).flatMap Label.lexemes ++
      p.elementLexeme e :: p.lexemesFrom s (position + 1) es

theorem Label.closed_line (l : Label) : Closed s!":{l.id}\n".toList l.lexemes := by
  have h := (closed_colon.append_open (open_natural l.id)).append_closed isSeparator_newline
    closed_newline
  simpa [lexemes, toString_string] using h

namespace Program.Lines

/-- What has been written so far is scanned to the lexemes. -/
def Lexes (l : Lines) (ls : List Lexeme) : Prop :=
  if l.isOpen then Open l.text.toList ls else Closed l.text.toList ls

variable {l : Lines} {ls : List Lexeme}

theorem Lexes.close (h : l.Lexes ls) :
    Closed (l.text ++ if l.isOpen then "\n" else "").toList ls := by
  unfold Lexes at h
  cases hl : l.isOpen with
  | false => simpa [hl] using h
  | true =>
    rw [hl] at h
    have hline := Open.append_closed isSeparator_newline h closed_newline
    simpa using hline

theorem Lexes.addLabels (h : l.Lexes ls) (s : Segment) (position : Nat) :
    (l.addLabels s.labels position).Lexes
      (ls ++ (s.labelsAt position).flatMap Label.lexemes) := by
  unfold Lines.addLabels Segment.labelsAt
  split
  · rename_i heq
    simpa [heq] using h
  · have hlines := h.close.append
      (closed_join (s.labelsAt position) fun x _ => x.closed_line)
    rw [← String.toList_append] at hlines
    exact hlines

theorem Lexes.addOpcode (h : l.Lexes ls) (p : Program) {name : String} (hname : isName name = true)
    (operation : Operation) :
    (l.addElement p (.opcode name operation)).Lexes (ls ++ [(.word, name)]) := by
  have hname' : Open ('\t' :: name.toList) [(.word, name)] :=
    (closed_blank (c := '\t') (by decide) (by decide)).append_open (open_name hname)
  have hline := h.close.append_open hname'
  show Open (l.text ++ (if l.isOpen then "\n\t" else "\t") ++ name).toList _
  cases hl : l.isOpen <;> simpa [hl] using hline

theorem Lexes.addOperand (h : l.Lexes ls) (hl : l.isOpen = true) {p : Program} {e : Element}
    (he : e.isOpcode = false) (hoperand : Open (p.operandListing e).toList [p.elementLexeme e]) :
    (l.addElement p e).Lexes (ls ++ [p.elementLexeme e]) := by
  have hopen : Open l.text.toList ls := by simpa [Lexes, hl] using h
  have hline := Open.append isSeparator_space hopen (open_spaced hoperand)
  have hadd : l.addElement p e = { l with text := l.text ++ " " ++ p.operandListing e } := by
    cases e with
    | opcode => cases he
    | _ => rfl
  simpa [hadd, Lexes, hl] using hline

theorem isOpen_addOperand {p : Program} {e : Element} (he : e.isOpcode = false) :
    (l.addElement p e).isOpen = l.isOpen := by
  cases e with
  | opcode => cases he
  | _ => rfl

end Program.Lines

end ShadingMachine
