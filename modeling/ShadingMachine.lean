import ShadingMachine.Command.Folder
import ShadingMachine.Command.Options
import ShadingMachine.Command.Run
import ShadingMachine.Formula.Arithmetic
import ShadingMachine.Formula.Geometry
import ShadingMachine.Formula.Spline
import ShadingMachine.Machine.Access
import ShadingMachine.Machine.Argument
import ShadingMachine.Machine.Elementwise
import ShadingMachine.Machine.Environment
import ShadingMachine.Machine.Error
import ShadingMachine.Machine.Execution
import ShadingMachine.Machine.Flow
import ShadingMachine.Machine.Instruction
import ShadingMachine.Machine.Local
import ShadingMachine.Machine.Pool
import ShadingMachine.Machine.Rule
import ShadingMachine.Machine.Service
import ShadingMachine.Machine.Stack
import ShadingMachine.Machine.State
import ShadingMachine.Machine.Step
import ShadingMachine.Machine.Strings
import ShadingMachine.Main
import ShadingMachine.Mask.Bits
import ShadingMachine.Mask.Running
import ShadingMachine.Number.Layout
import ShadingMachine.Number.Numeral
import ShadingMachine.Number.Scalar
import ShadingMachine.Number.Shortest
import ShadingMachine.Number.Truncation
import ShadingMachine.Pattern.Basic
import ShadingMachine.Pattern.Class
import ShadingMachine.Pattern.Engine
import ShadingMachine.Pattern.Escape
import ShadingMachine.Pattern.Parse
import ShadingMachine.Program.Basic
import ShadingMachine.Program.GraphicsVariable
import ShadingMachine.Program.Listing
import ShadingMachine.Program.Loader
import ShadingMachine.Program.Mnemonic
import ShadingMachine.Program.Opcode
import ShadingMachine.Proofs.Execution.Access
import ShadingMachine.Proofs.Execution.Argument
import ShadingMachine.Proofs.Execution.Instruction
import ShadingMachine.Proofs.Execution.Operands
import ShadingMachine.Proofs.Execution.Outcome
import ShadingMachine.Proofs.Execution.Reached
import ShadingMachine.Proofs.Execution.Stable
import ShadingMachine.Proofs.Execution.Together
import ShadingMachine.Proofs.Frame.Arrays
import ShadingMachine.Proofs.Frame.Idle
import ShadingMachine.Proofs.Frame.Instruction
import ShadingMachine.Proofs.Frame.Moves
import ShadingMachine.Proofs.Frame.Points
import ShadingMachine.Proofs.Grid.Instruction
import ShadingMachine.Proofs.Grid.Operands
import ShadingMachine.Proofs.Grid.Projection
import ShadingMachine.Proofs.Grid.Refinement
import ShadingMachine.Proofs.Grid.SamePoint
import ShadingMachine.Proofs.Listing.Declarations
import ShadingMachine.Proofs.Listing.Faithful
import ShadingMachine.Proofs.Listing.Instruction
import ShadingMachine.Proofs.Listing.Items
import ShadingMachine.Proofs.Listing.Jumps
import ShadingMachine.Proofs.Listing.Lexemes
import ShadingMachine.Proofs.Listing.Reload
import ShadingMachine.Proofs.Listing.RoundTrip
import ShadingMachine.Proofs.Listing.Segment
import ShadingMachine.Proofs.Loading.Accepts
import ShadingMachine.Proofs.Loading.Draft
import ShadingMachine.Proofs.Loading.Origin
import ShadingMachine.Proofs.Loading.Reads
import ShadingMachine.Proofs.Loading.Safety
import ShadingMachine.Proofs.Loading.Spelling
import ShadingMachine.Proofs.Loading.Structure
import ShadingMachine.Proofs.Lockstep.Access
import ShadingMachine.Proofs.Lockstep.Dispatch
import ShadingMachine.Proofs.Lockstep.Elementwise
import ShadingMachine.Proofs.Lockstep.Operands
import ShadingMachine.Proofs.Lockstep.Pointwise
import ShadingMachine.Proofs.Lockstep.Promotion
import ShadingMachine.Proofs.Lockstep.Stores
import ShadingMachine.Proofs.Lockstep.Values
import ShadingMachine.Proofs.Mask.Points
import ShadingMachine.Proofs.Mask.Scopes
import ShadingMachine.Proofs.Number.Decimal
import ShadingMachine.Proofs.Number.Nearest
import ShadingMachine.Proofs.Number.ReadBack
import ShadingMachine.Proofs.Number.Rounding
import ShadingMachine.Proofs.Number.Single
import ShadingMachine.Proofs.Number.Whole
import ShadingMachine.Proofs.Program.WellFormed
import ShadingMachine.Proofs.Slots.Accounting
import ShadingMachine.Proofs.Slots.Balance
import ShadingMachine.Proofs.Structured.Alike
import ShadingMachine.Proofs.Structured.Assignment
import ShadingMachine.Proofs.Structured.Block
import ShadingMachine.Proofs.Structured.Code
import ShadingMachine.Proofs.Structured.Point
import ShadingMachine.Proofs.Structured.Refinement
import ShadingMachine.Proofs.Structured.Scope
import ShadingMachine.Proofs.Structured.Steps
import ShadingMachine.Proofs.Text.Lexemes
import ShadingMachine.Proofs.Text.Lexing
import ShadingMachine.Proofs.Text.Pieces
import ShadingMachine.Proofs.Text.Separator
import ShadingMachine.Scene.Bare
import ShadingMachine.Scene.GraphicsState
import ShadingMachine.Scene.Grid
import ShadingMachine.Scene.Light
import ShadingMachine.Scene.Noise
import ShadingMachine.Scene.Resolution
import ShadingMachine.Scene.Spaces
import ShadingMachine.Text.Blank
import ShadingMachine.Text.Closest
import ShadingMachine.Text.Diagnostic
import ShadingMachine.Text.Folding
import ShadingMachine.Text.LineEnding
import ShadingMachine.Text.Note
import ShadingMachine.Text.Printable
import ShadingMachine.Text.Quoted
import ShadingMachine.Text.Source
import ShadingMachine.Text.Span
import ShadingMachine.Text.Token
import ShadingMachine.Text.WordChar
import ShadingMachine.Value.Basic
import ShadingMachine.Value.ColorSpace
import ShadingMachine.Value.Format
import ShadingMachine.Value.Mat4
import ShadingMachine.Value.Triple
import ShadingMachine.Value.Variable
import ShadingMachine.Proofs.Lockstep.Answers
import ShadingMachine.Proofs.Lockstep.Runs
import ShadingMachine.Proofs.Storage.Runs
import ShadingMachine.Proofs.Execution.Served
import ShadingMachine.Proofs.Slots.Recovery
import ShadingMachine.Proofs.Slots.Imbalance
import ShadingMachine.Proofs.Initial.Alone
import ShadingMachine.Proofs.Initial.Order
import ShadingMachine.Proofs.Loading.Places
import ShadingMachine.Proofs.Loading.Report
import ShadingMachine.Proofs.Parameter.Setting
import ShadingMachine.Proofs.Text.Tiling
import ShadingMachine.Proofs.Text.LineByLine
import ShadingMachine.Proofs.Loading.Total
import ShadingMachine.Proofs.Loading.LineEndings
import ShadingMachine.Proofs.Loading.Relaid
import ShadingMachine.Proofs.Loading.Version
import ShadingMachine.Proofs.Loading.Appending
import ShadingMachine.Proofs.Mask.Operations
import ShadingMachine.Proofs.Arrays.Access
import ShadingMachine.Proofs.Exact.Spaces
import ShadingMachine.Proofs.Exact.Hues
import ShadingMachine.Proofs.Lights.Loop
import ShadingMachine.Proofs.Text.Rendering
import ShadingMachine.Proofs.Text.EditDistance
import ShadingMachine.Proofs.Exact.Splines
import ShadingMachine.Proofs.Exact.Slopes
import ShadingMachine.Proofs.Text.Formats
import ShadingMachine.Proofs.Text.StringLiteral
import ShadingMachine.Proofs.Loading.Numbers
import ShadingMachine.Proofs.Number.Sum
import ShadingMachine.Proofs.Noise.Words
import ShadingMachine.Proofs.Noise.Range
