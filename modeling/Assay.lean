import Assay.Assembly.Compile
import Assay.Assembly.Generator
import Assay.Assembly.Harness
import Assay.Assembly.Linearize
import Assay.Assembly.Selection
import Assay.Bytecode.Constant
import Assay.Bytecode.Encoding
import Assay.Bytecode.Listing
import Assay.Bytecode.Opcode
import Assay.Bytecode.Program
import Assay.CommandLine.FileTree
import Assay.CommandLine.Flags
import Assay.CommandLine.Help
import Assay.CommandLine.Host
import Assay.CommandLine.Run
import Assay.CommandLine.Terminal
import Assay.CommandLine.Transcript
import Assay.Decimal.Format
import Assay.Decimal.Shortest
import Assay.Description.ClassDescription
import Assay.Description.Command
import Assay.Description.Entry
import Assay.Description.Expression
import Assay.Description.Problem
import Assay.Document.Lexer
import Assay.Document.Node
import Assay.Document.Scalar
import Assay.Document.Token
import Assay.Graph.Arena
import Assay.Graph.Instruction
import Assay.Graph.Layout
import Assay.Graph.Run
import Assay.Graph.Traversal
import Assay.Logging.Event
import Assay.Logging.Level
import Assay.Lowering.Command
import Assay.Lowering.Expression
import Assay.Lowering.Member
import Assay.Lowering.Monad
import Assay.Lowering.Session
import Assay.Machine.Fault
import Assay.Machine.Frame
import Assay.Machine.Run
import Assay.Machine.Step
import Assay.Machine.Value
import Assay.Machine.World
import Assay.Main
import Assay.Report.Check
import Assay.Report.Json
import Assay.Report.Program
import Assay.Report.Summary
import Assay.Settings.Duration
import Assay.Settings.Settings
import Assay.Source.Diagnostic
import Assay.Source.Interruption
import Assay.Source.Position
import Assay.Syntax.Command
import Assay.Syntax.Declaration
import Assay.Syntax.Dot
import Assay.Syntax.Expression
import Assay.Syntax.Tree
import Assay.Syntax.Walk
import Assay.Text.Alphabet
import Assay.Text.Reading
import Assay.Text.Comparison
import Assay.Text.Printable
import Assay.Text.Quoted
import Assay.Typing.Body
import Assay.Typing.CheckedClass
import Assay.Typing.Checker
import Assay.Typing.ClassType
import Assay.Typing.Member
import Assay.Typing.Ty
import Assay.Proofs.Bytecode.Decoding
import Assay.Proofs.Bytecode.Interning
import Assay.Proofs.Bytecode.Deduplication
import Assay.Proofs.Graph.Layout
import Assay.Proofs.Graph.Fallthrough
import Assay.Proofs.Graph.Meaning
import Assay.Proofs.Assembly.Materialization
import Assay.Proofs.Assembly.Addresses
import Assay.Proofs.Assembly.Instructions
import Assay.Proofs.Assembly.Simulation
import Assay.Proofs.Assembly.Linearization
import Assay.Proofs.Syntax.Meaning
import Assay.Proofs.Syntax.Paths
import Assay.Proofs.Typing.Soundness
import Assay.Proofs.Graph.Progress
import Assay.Proofs.Machine.Instances
import Assay.Proofs.Success
import Assay.Proofs.Typing.Acceptance
import Assay.Proofs.Typing.Declarations
import Assay.Proofs.Typing.Rules
import Assay.Proofs.Lowering.Expressions
import Assay.Proofs.Lowering.Commands
import Assay.Proofs.Lowering.Bodies
import Assay.Proofs.Assembly.Compilation
import Assay.Proofs.Assembly.Orders
import Assay.Proofs.Assembly.Calls
import Assay.Proofs.Assembly.MainSteps
import Assay.Proofs.Assembly.NewInstances
import Assay.Proofs.Assembly.Reports
import Assay.Proofs.Lowering.Parts
import Assay.Proofs.Assembly.Safety
import Assay.Proofs.Graph.Growth
import Assay.Proofs.Lowering.Totality
import Assay.Proofs.Assembly.Emission
import Assay.Proofs.Assembly.Jumps
import Assay.Proofs.Assembly.Stages
import Assay.Proofs.Assembly.Totality
import Assay.Proofs.Assembly.WellFormed
import Assay.Proofs.Machine.Limits
import Assay.Proofs.Assembly.Isolation
import Assay.Proofs.CommandLine.Verdict
import Assay.Proofs.Graph.HandOver
import Assay.Proofs.Lowering.Growth
import Assay.Proofs.Assembly.Requests
import Assay.Proofs.Assembly.Sessions
import Assay.Proofs.Description.Entries
import Assay.Proofs.Description.Grammar
import Assay.Proofs.Description.Bodies
import Assay.Proofs.Description.Classes
import Assay.Proofs.Machine.Effects
import Assay.Proofs.Machine.Structure
import Assay.Proofs.Machine.Safety
import Assay.Proofs.Machine.Cuts
import Assay.Proofs.Machine.Reuse
import Assay.Proofs.Machine.StackEffect
import Assay.Proofs.Lowering.Records
import Assay.Proofs.Lowering.Agreement
import Assay.Proofs.Syntax.Reachability
import Assay.Proofs.Typing.DeadCode
import Assay.Proofs.Graph.Heights
import Assay.Proofs.Lowering.Balance
import Assay.Proofs.Lowering.StackHeights
import Assay.Proofs.Lowering.Locality
import Assay.Proofs.Graph.StackRuns
import Assay.Proofs.Bytecode.Streams
import Assay.Proofs.Syntax.Tours
import Assay.Proofs.Syntax.Walks
import Assay.Proofs.Syntax.Entries
import Assay.Proofs.Typing.InPlace
import Assay.Proofs.Typing.Composition
import Assay.Proofs.Typing.Coverage
import Assay.Proofs.Source.Location
import Assay.Proofs.Graph.Bookkeeping
import Assay.Proofs.Description.Independence
import Assay.Proofs.Description.KeyOrder
