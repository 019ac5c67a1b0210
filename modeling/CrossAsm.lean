import CrossAsm.Binding
import CrossAsm.Cli
import CrossAsm.Cli.Options
import CrossAsm.Compile
import CrossAsm.Disk
import CrossAsm.Disk.Tree
import CrossAsm.Entries
import CrossAsm.Error
import CrossAsm.Expr
import CrossAsm.Image
import CrossAsm.Image.Listing
import CrossAsm.Image.Map
import CrossAsm.Isa.Cpu
import CrossAsm.Isa.Decoded
import CrossAsm.Isa.Encoding
import CrossAsm.Isa.Mode
import CrossAsm.Isa.Op
import CrossAsm.Isa.Opcode
import CrossAsm.Isa.Operand
import CrossAsm.Isa.Register
import CrossAsm.Isa.Test
import CrossAsm.Json
import CrossAsm.Layout
import CrossAsm.Layout.Deferred
import CrossAsm.Lexeme
import CrossAsm.Lexeme.Scan
import CrossAsm.Lexeme.Tokens
import CrossAsm.Lowering
import CrossAsm.Main
import CrossAsm.Memory.Buffer
import CrossAsm.Memory.Ram
import CrossAsm.Memory.Rom
import CrossAsm.Namespace
import CrossAsm.Nesting
import CrossAsm.Nesting.Step
import CrossAsm.Nesting.Weight
import CrossAsm.Padding
import CrossAsm.Parser.Cursor
import CrossAsm.Parser.Expr
import CrossAsm.Parser.Stmt
import CrossAsm.Pos
import CrossAsm.Proofs.Binding.Agreement
import CrossAsm.Proofs.Layout.Pieces
import CrossAsm.Proofs.Layout.Regions
import CrossAsm.Proofs.Layout.Tracking
import CrossAsm.Proofs.Layout.TwoPass
import CrossAsm.Proofs.Layout.Walk
import CrossAsm.Proofs.Layout.Steps
import CrossAsm.Proofs.Lowering.Code
import CrossAsm.Proofs.Lowering.Forms
import CrossAsm.Proofs.Lowering.Emission
import CrossAsm.Proofs.Lowering.Machine
import CrossAsm.Proofs.Lowering.Preservation
import CrossAsm.Proofs.Lowering.Runs
import CrossAsm.Proofs.Steps
import CrossAsm.Resolve
import CrossAsm.Scope.Symbol
import CrossAsm.Scope.Table
import CrossAsm.Session
import CrossAsm.Source
import CrossAsm.Stmt
import CrossAsm.Stmt.Control
import CrossAsm.Stmt.Decl
import CrossAsm.Stmt.Directive
import CrossAsm.Text.Ascii
import CrossAsm.Text.Blank
import CrossAsm.Text.Colour
import CrossAsm.Text.Hex
import CrossAsm.Text.Hidden
import CrossAsm.Text.Lines
import CrossAsm.Text.Path
import CrossAsm.Text.Quoted
import CrossAsm.Total
import CrossAsm.Word
import CrossAsm.Proofs.Binding.Settled
import CrossAsm.Proofs.Resolve.Sessions
import CrossAsm.Proofs.Resolve.Visits
import CrossAsm.Proofs.Resolve.Lasting
import CrossAsm.Proofs.Nesting.Declarations
import CrossAsm.Proofs.References
import CrossAsm.Proofs.Nesting.Written
import CrossAsm.Proofs.Nesting.Reading
import CrossAsm.Proofs.Nesting.Inversion
import CrossAsm.Proofs.Nesting.Functions
import CrossAsm.Proofs.Resolve.InPlace
import CrossAsm.Proofs.Failures
import CrossAsm.Proofs.Binding.Failures
import CrossAsm.Proofs.Resolve.Turns
import CrossAsm.Proofs.Resolve.Fixpoint
import CrossAsm.Proofs.Resolve.Persistence
import CrossAsm.Proofs.Resolve.Encodable
import CrossAsm.Proofs.Layout.Failures
import CrossAsm.Proofs.Nesting.Spliceable
import CrossAsm.Proofs.Resolve.Failures
import CrossAsm.Proofs.Resolve.Termination
import CrossAsm.Proofs.Resolve.Hygiene
import CrossAsm.Proofs.Isa.RoundTrip
import CrossAsm.Proofs.Memory.BankSteps
import CrossAsm.Proofs.Memory.Separation
import CrossAsm.Proofs.Nesting.Transitions
import CrossAsm.Proofs.Nesting.Balance
import CrossAsm.Proofs.Nesting.WellNested
import CrossAsm.Proofs.Nesting.Order
import CrossAsm.Proofs.Resolve.WellNested
import CrossAsm.Proofs.Parser.Reading
import CrossAsm.Proofs.Parser.Grammar
import CrossAsm.Proofs.Parser.Scanning
import CrossAsm.Proofs.Parser.Printed
import CrossAsm.Proofs.Lockstep
import CrossAsm.Proofs.Isa.Superset
import CrossAsm.Proofs.Parser.Superset
import CrossAsm.Proofs.Binding.Matching
import CrossAsm.Proofs.Resolve.Following
import CrossAsm.Proofs.Layout.Following
import CrossAsm.Proofs.Nesting.Respelled
import CrossAsm.Proofs.Nesting.Following
import CrossAsm.Proofs.Superset
import CrossAsm.Proofs.Nesting.Braces
import CrossAsm.Proofs.Resolve.Renamed
import CrossAsm.Proofs.Nesting.Renamed
import CrossAsm.Proofs.Parameters
import CrossAsm.Proofs.Memory.FirstFit
import CrossAsm.Proofs.Source.Rows
import CrossAsm.Proofs.Source.Arguments
import CrossAsm.Proofs.Nesting.Leaves
import CrossAsm.Proofs.Binding.Persistence
import CrossAsm.Proofs.Resolve.BoundOnce
import CrossAsm.Proofs.Image.MemoryMap
import CrossAsm.Proofs.Layout.Banks
import CrossAsm.Proofs.Layout.Packing
import CrossAsm.Proofs.Image.BankSizes
import CrossAsm.Proofs.Memory.Capacity
import CrossAsm.Proofs.Layout.RamPlacement
import CrossAsm.Proofs.Folding
import CrossAsm.Proofs.Memory.ByteMap
import CrossAsm.Proofs.Memory.Acceptance
import CrossAsm.Proofs.Layout.Elements
import CrossAsm.Proofs.Binding.Questions
import CrossAsm.Proofs.Binding.Enough
import CrossAsm.Proofs.Binding.Arguments
import CrossAsm.Proofs.Binding.Members
import CrossAsm.Proofs.Binding.Recursion
import CrossAsm.Proofs.Resolve.Stuck
import CrossAsm.Proofs.Layout.Names
import CrossAsm.Proofs.Layout.Rounds
import CrossAsm.Proofs.Layout.Vectors
import CrossAsm.Proofs.Lowering.Switches
import CrossAsm.Proofs.Resolve.Labels
import CrossAsm.Proofs.Scope.History
import CrossAsm.Proofs.Nesting.Entries
import CrossAsm.Proofs.Parser.Recovery
import CrossAsm.Proofs.Image.Listing
import CrossAsm.Proofs.Parser.Comments
import CrossAsm.Proofs.Parser.Ends
import CrossAsm.Proofs.Parser.Statements
import CrossAsm.Proofs.Parser.Coupling
import CrossAsm.Proofs.Lexeme.Literals
import CrossAsm.Proofs.Lexeme.Positions
import CrossAsm.Proofs.Lexeme.Written
import CrossAsm.Proofs.Source.Blame
import CrossAsm.Proofs.Parser.Passes
