import ShadingMachine.Number.Numeral
import ShadingMachine.Program.Basic
import ShadingMachine.Text.Closest
import ShadingMachine.Text.LineEnding
import ShadingMachine.Text.Note
import ShadingMachine.Text.Quoted
import ShadingMachine.Text.Token

/-! Reading programs. A text has a header and up to three segments, in the order Data, Init,
Code. Reading stops at the first error. Jumps are resolved when their segment is complete. -/
namespace ShadingMachine

open Text

/-- What is wrong, with the token it was noticed at; line and column count from one. -/
structure LoadError where
  cause : Cause
  token : String
  span : Span
  line : Nat
  column : Nat
  suggestion : Option String
deriving DecidableEq, Inhabited

namespace LoadError

def message (e : LoadError) : String := s!"{e.line}:{e.column}: {e.cause.message}"

def toDiagnostic (e : LoadError) : Diagnostic :=
  { Diagnostic.ofCause .error e.cause (some e.span) with
    suggestion := e.suggestion.map fun s => s!"did you mean '{s}'?" }

end LoadError

namespace Loader

/-- The tokens still to be read, the end of the last one read, and the notes made. -/
structure Reading where
  source : Source
  tokens : List Token
  lastEnd : Nat
  log : Log

abbrev Load := EStateM LoadError Reading

def errorAt (source : Source) (cause : Cause) (span : Span) (suggestion : Option String) :
    LoadError :=
  let (line, column) := source.lineCol span.start
  ⟨cause, String.ofList (source.slice span), span, line + 1, column + 1, suggestion⟩

def failWith {α : Type} (cause : Cause) (span : Span) (suggestion : Option String) : Load α := do
  throw (errorAt (← get).source cause span suggestion)

def fail {α : Type} (cause : Cause) (t : Token) : Load α := failWith cause t.span none

def note (level : Level) (text : String) : Load Unit :=
  modify fun r => { r with log := r.log.push ⟨level, text⟩ }

def peek : Load Token := do
  let r ← get
  return r.tokens.headD ⟨.endOfInput, "", .point (byteSize r.source.text)⟩

def skip : Load Unit :=
  modify fun r => match r.tokens with
    | t :: ts => { r with tokens := ts, lastEnd := t.span.stop }
    | [] => r

def expect (kind : TokenKind) (what : String) : Load Token := do
  let t ← peek
  if t.kind ≠ kind then fail (.expectedToken what) t
  skip
  return t

def expectKeyword (keyword : String) : Load Unit := do
  let t ← peek
  if t.kind ≠ .word ∨ t.text ≠ keyword then fail (.expectedToken s!"'{keyword}'") t
  skip

/-- The rest of the line of the last token, without a comment and the blanks around it. The
tokens of that line are passed over. -/
def version : Load String := do
  let r ← get
  let line := (dropBytes r.lastEnd r.source.text).takeWhile (· != '\n')
  let lineEnd := r.lastEnd + byteSize line
  let text := trim (line.takeWhile (· != '#'))
  if text.isEmpty then
    failWith (.expectedToken "version after AQSIS_V") (.point r.lastEnd) none
  let onLine (t : Token) : Bool := t.kind != .endOfInput && t.span.start < lineEnd
  set { r with tokens := r.tokens.dropWhile onLine }
  return String.ofList text

def usesMask : Load UsesMask := do
  let t ← expect .number "USES bit-mask"
  match Number.naturalBelow? 0x100000000 t.text.toList with
  | some n =>
    if (UsesMask.mk n).unknownBits ≠ 0 then
      let hex := String.ofList (hexDigits n)
      note .warn s!"USES mask 0x{hex} sets bits beyond the standard variables; they are ignored"
    return ⟨n⟩
  | none => fail (.invalidUsesMask t.text) t

def header : Load Program := do
  let t ← expect .word "shader kind"
  match ShaderKind.ofKeyword? t.text with
  | some kind =>
    expectKeyword "AQSIS_V"
    let version ← version
    expectKeyword "USES"
    let uses ← usesMask
    return ⟨kind, version, uses, #[], .empty, .empty⟩
  | none =>
    failWith (.unknownShaderKind t.text) t.span (closest t.text (ShaderKind.all.map (·.keyword)))

def atSegmentEnd : Load Bool := do
  let t ← peek
  return t.kind == .endOfInput || (t.kind == .word && t.text == "segment")

/-- The flags before a declaration and the word after them. -/
def flags : Nat → Bool → Bool → Load (Bool × Bool × Token)
  | 0, param, output => return (param, output, ← expect .word "declaration")
  | n + 1, param, output => do
    let t ← expect .word "declaration"
    if t.text = "param" then flags n true output
    else if t.text = "output" then flags n param true
    else return (param, output, t)

/-- An array length in brackets, if there is one. -/
def arrayLength : Load (Option Nat) := do
  if (← peek).kind = .leftBracket then
    skip
    let t ← expect .number "array length"
    match Number.naturalBelow? 0x10000000000000000 t.text.toList with
    | some (n + 1) =>
      let _ ← expect .rightBracket "']'"
      return some (n + 1)
    | _ => fail (.invalidArrayLength t.text) t
  else return none

def declaration (p : Program) : Load Declaration := do
  let (param, output, t) ← flags (← get).tokens.length false false
  match Detail.ofKeyword? t.text with
  | none => fail (.unknownStorageClass t.text) t
  | some detail =>
    let t ← expect .word "variable type"
    match ValueType.ofKeyword? t.text with
    | none =>
      failWith (.unknownType t.text) t.span (closest t.text (ValueType.all.map (·.keyword)))
    | some type =>
      let t ← expect .word "variable name"
      if (p.localIndex? t.text).isSome then fail (.duplicateVariable t.text) t
      let length ← arrayLength
      return ⟨t.text, type, detail, param, output, length⟩

/-- The declarations of a Data segment, at most `n`. -/
def declarations : Nat → Program → Load Program
  | 0, p => return p
  | n + 1, p => do
    if ← atSegmentEnd then return p
    let d ← declaration p
    note .trace s!"declare {d.detail.keyword} {d.type.keyword} {d.name}"
    declarations n { p with locals := p.locals.push d }

/-- A label is a whole number, which may be written with a point or an exponent. -/
def labelId (t : Token) : Load Nat := do
  let id := (Number.numeral? t.text.toList).bind fun n => Number.wholeOf? n.toFloat
  match id.filter (· < 0x100000000) with
  | some id => return id
  | none => fail (.invalidOperand ":" "label" s!"number '{t.text}'") t

def variableRef (p : Program) (op : String) (needsArray : Bool) (t : Token) :
    Load VariableRef := do
  match p.localIndex? t.text with
  | some k =>
    let isArray := (p.locals[k]?.bind (·.arrayLength)).isSome
    if needsArray && !isArray then fail (.arrayRequired t.text) t
    if !needsArray && isArray then
      fail (.invalidOperand op "non-array variable" s!"array '{t.text}'") t
    return .declared k
  | none =>
    match GraphicsVariable.ofName? t.text with
    | some x =>
      if needsArray then fail (.arrayRequired t.text) t
      return .graphics x
    | none =>
      -- The order decides only between names that are equally near. It is taken to be that of the
      -- declarations, though a hash table has an order of its own.
      let candidates := p.locals.toList.map (·.name) ++ GraphicsVariable.all.map (·.name)
      failWith (.undefinedVariable t.text) t.span (closest t.text candidates)

/-- A segment in the making, and where its jumps are with their tokens' places. -/
structure Draft where
  segment : Segment
  jumps : List (Nat × Span)

def Draft.push (d : Draft) (e : Element) : Draft :=
  { d with segment := { d.segment with elements := d.segment.elements.push e } }

def describeToken (t : Token) : String :=
  match t.kind with
  | .word | .number => s!"{t.kind.describe} '{t.text}'"
  | _ => t.kind.describe

def operand (p : Program) (name : String) (code : Opcode) (d : Draft) (kind : OperandKind) :
    Load Draft := do
  let t ← peek
  if (← atSegmentEnd) || t.kind == .colon then fail (.missingOperand name kind.describe) t
  skip
  match kind, t.kind with
  | .float, .number =>
    match Number.numeral? t.text.toList with
    | some n => return d.push (.float n.toFloat32)
    | none => fail (.invalidNumber t.text) t
  | .string, .string => return d.push (.string (String.ofList (Quoted.unquote t.text.toList)))
  | .variable, .word => return d.push (.variable (← variableRef p name code.needsArray t))
  | .label, .number =>
    let id ← labelId t
    return { d.push (.unresolved id) with jumps := d.jumps ++ [(d.segment.length, t.span)] }
  | _, _ => fail (.invalidOperand name kind.describe (describeToken t)) t

def instruction (p : Program) (d : Draft) (t : Token) : Load Draft := do
  match Mnemonic.operation? t.text with
  | some operation =>
    operation.operands.foldlM (operand p t.text operation.code)
      (d.push (.opcode t.text operation))
  | none => failWith (.unknownOpcode t.text) t.span (closest t.text Mnemonic.names)

def labelDefinition (d : Draft) : Load Draft := do
  let t ← expect .number "label id"
  let id ← labelId t
  if (d.segment.label? id).isSome then fail (.duplicateLabel id) t
  let labels := d.segment.labels ++ [⟨id, d.segment.length⟩]
  return { d with segment := { d.segment with labels } }

/-- The labels and instructions of a segment, at most `n`. -/
def items : Nat → Program → Draft → Load Draft
  | 0, _, d => return d
  | n + 1, p, d => do
    if ← atSegmentEnd then return d
    let t ← peek
    skip
    match t.kind with
    | .colon => items n p (← labelDefinition d)
    | .word => items n p (← instruction p d t)
    | _ => fail (.expectedToken "opcode or label") t

/-- Gives a jump its label. -/
def resolve (s : Segment) (jump : Nat × Span) : Load Segment := do
  match s.elements[jump.1]? with
  | some (.unresolved id) =>
    match s.label? id with
    | some l => return { s with elements := s.elements.setIfInBounds jump.1 (.label l) }
    | none => failWith (.undefinedLabel id) jump.2 none
  | _ => return s

def codeSegment (p : Program) (kind : SegmentKind) : Load Program := do
  let d ← items (← get).tokens.length p ⟨.empty, []⟩
  let s ← d.jumps.foldlM resolve d.segment
  note .debug s!"segment {kind.name}: {s.length} elements, {s.labels.length} labels"
  return p.setSegment kind s

def segmentNames : List String := ["Data", "Init", "Code"]

/-- The segments from the one of number `next` on. -/
def segments : Nat → Nat → Program → Load Program
  | 0, _, p => return p
  | n + 1, next, p => do
    if (← peek).kind = .endOfInput then return p
    expectKeyword "segment"
    let t ← expect .word "segment name"
    match segmentNames.findIdx? (· == t.text) with
    | none => failWith (.unknownSegment t.text) t.span (closest t.text segmentNames)
    | some k =>
      if k < next then fail (.segmentOutOfOrder t.text) t
      let p ← match k with
        | 0 => do declarations (← get).tokens.length p
        | 1 => codeSegment p .init
        | _ => codeSegment p .code
      segments n (k + 1) p

def program : Load Program := do
  let p ← header
  let p ← segments (← get).tokens.length 0 p
  note .debug (s!"loaded {p.kind.keyword} program: {p.locals.size} locals, " ++
    s!"{p.init.instructionCount} init and {p.code.instructionCount} code instructions")
  return p

end Loader

/-- The program that a text is, or what is wrong with the text, and the notes made. -/
def Program.load (text : List Char) : Except LoadError Program × Log :=
  let (unified, warnings) := unifyLineEndings text
  let source := Source.ofChars unified
  let log := (warnings.map fun d => Note.mk .warn d.message).toArray
  let (tokens, faults) := scan unified
  match faults with
  | d :: _ =>
    let span := d.span.getD default
    (.error (Loader.errorAt source (.reported d.message) span none), log)
  | [] =>
    match Loader.program.run ⟨source, tokens, 0, log⟩ with
    | .ok p r => (.ok p, r.log)
    | .error e r => (.error e, r.log)

end ShadingMachine
