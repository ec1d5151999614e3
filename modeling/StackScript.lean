import StackScript.Assembly.Compile
import StackScript.Assembly.CompileError
import StackScript.Assembly.ExprCode
import StackScript.Assembly.LabelTable
import StackScript.Assembly.Scope
import StackScript.Assembly.StmtCode
import StackScript.Assembly.Writer
import StackScript.Bytecode.Opcode
import StackScript.Bytecode.Program
import StackScript.CommandLine.Invocation
import StackScript.CommandLine.Options
import StackScript.Decimal.FloatParts
import StackScript.Decimal.Layout
import StackScript.Decimal.Numeric
import StackScript.Decimal.Reading
import StackScript.Decimal.Shortest
import StackScript.Engine
import StackScript.Host.Answer
import StackScript.Host.Builtins
import StackScript.Host.Call
import StackScript.Host.Environment
import StackScript.Machine.Attempt
import StackScript.Machine.Collections
import StackScript.Machine.Fault
import StackScript.Machine.Run
import StackScript.Machine.Step
import StackScript.Main
import StackScript.Shell.Command
import StackScript.Shell.Completion
import StackScript.Shell.Entry
import StackScript.Shell.Highlight
import StackScript.Shell.Session
import StackScript.Source.Directory
import StackScript.Source.ReadError
import StackScript.Syntax.Parser
import StackScript.Syntax.Position
import StackScript.Syntax.Scan
import StackScript.Syntax.Token
import StackScript.Syntax.Tree
import StackScript.Terminal.Style
import StackScript.Terminal.Transcript
import StackScript.Text.Alphanumeric
import StackScript.Text.Blank
import StackScript.Text.CodeRanges
import StackScript.Text.IdentifierChars
import StackScript.Text.Quoted
import StackScript.Typing.Rule
import StackScript.Typing.Ty
import StackScript.Value.Basic
import StackScript.Value.Copy
import StackScript.Value.Display
import StackScript.Value.Equality
import StackScript.Value.Write
import StackScript.Proofs.BlockWriting
import StackScript.Proofs.Streams
import StackScript.Proofs.Effects
import StackScript.Proofs.Calls
import StackScript.Proofs.ProgramWriting
import StackScript.Proofs.Activations
import StackScript.Proofs.Isolation
import StackScript.Sharing
import StackScript.Proofs.Correctness
import StackScript.Proofs.Spelling
import StackScript.Proofs.Bisimilarity
import StackScript.Proofs.Limits
import StackScript.Proofs.Tiling
import StackScript.Proofs.Constants
import StackScript.Proofs.RoundTrip
import StackScript.Proofs.Isomorphism
import StackScript.Proofs.Stores
import StackScript.Proofs.SetMembers
import StackScript.Proofs.Locals
import StackScript.Proofs.Refusals
import StackScript.Proofs.TwinSteps
import StackScript.Proofs.Exchange
import StackScript.Proofs.Rearrangement
import StackScript.Proofs.Relocation
import StackScript.Proofs.OpenFrames
import StackScript.Proofs.AlikeRuns
import StackScript.Proofs.FarCalls
import StackScript.Proofs.Completions
import StackScript.Proofs.Depths
import StackScript.Proofs.Overflows
import StackScript.Proofs.Brackets
import StackScript.Proofs.Lexemes
import StackScript.Proofs.Entries
import StackScript.Proofs.Interpolations
import StackScript.Proofs.RuntimeTypes
import StackScript.Proofs.TypedExprs
import StackScript.Proofs.TypeSafety
