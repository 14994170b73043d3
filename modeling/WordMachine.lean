import WordMachine.Main
import WordMachine.Proofs.Machine.Fetch
import WordMachine.Proofs.Machine.Reference
import WordMachine.Proofs.Machine.Handler
import WordMachine.Proofs.Machine.Refinement
import WordMachine.Proofs.Assembly.Encoding
import WordMachine.Proofs.Assembly.Stable
import WordMachine.Proofs.Assembly.Coherence
import WordMachine.Proofs.Assembly.Linking
import WordMachine.Proofs.Assembly.TwoPasses
import WordMachine.Proofs.Assembly.Execution
import WordMachine.Proofs.Machine.Failure
import WordMachine.Proofs.Machine.Range
import WordMachine.Proofs.Assembly.PlainLine
import WordMachine.Proofs.Text.Decimal
import WordMachine.Proofs.Assembly.Listing
import WordMachine.Proofs.Expression.Names
import WordMachine.Proofs.Assembly.Embedding
import WordMachine.Proofs.Assembly.Trace
import WordMachine.Proofs.Assembly.Matching
import WordMachine.Proofs.Assembly.SourceMatching
import WordMachine.Proofs.Assembly.Factoring
import WordMachine.Proofs.Machine.CallReturn
import WordMachine.Proofs.Machine.Likeness
import WordMachine.Proofs.Emulator.Comparison
import WordMachine.Proofs.Machine.Interaction
import WordMachine.Proofs.Emulator.Diagnostics
import WordMachine.Proofs.Console.Delivery
import WordMachine.Proofs.Console.Uses
import WordMachine.Proofs.Emulator.Exchange
import WordMachine.Proofs.Emulator.Buffering
import WordMachine.Proofs.Console.Holding
import WordMachine.Proofs.Emulator.Holding
import WordMachine.Proofs.Emulator.Ticks
import WordMachine.Proofs.Emulator.Resumption
import WordMachine.Proofs.Program.Image
import WordMachine.Proofs.Emulator.Statements
import WordMachine.Proofs.Emulator.Accounting
import WordMachine.Proofs.Command.Arguments
import WordMachine.Proofs.Command.SavedImage
import WordMachine.Proofs.Assembly.Turns
import WordMachine.Proofs.Program.Tiling
import WordMachine.Proofs.Assembly.Placement
import WordMachine.Proofs.Emulator.Classification
import WordMachine.Proofs.Console.EndOfFile
import WordMachine.Proofs.Assembly.Declarations
import WordMachine.Proofs.Assembly.Marks
import WordMachine.Proofs.Emulator.EndOfInput
import WordMachine.Proofs.Assembly.Expansions
import WordMachine.Proofs.Assembly.Orders
import WordMachine.Proofs.Machine.Verdict
import WordMachine.Proofs.Machine.Tracing
import WordMachine.Proofs.Table.Order
import WordMachine.Proofs.Assembly.Histories
import WordMachine.Proofs.Assembly.Scoping
import WordMachine.Proofs.Assembly.Locality
import WordMachine.Proofs.Emulator.FailedReset
import WordMachine.Proofs.Emulator.Peeking
import WordMachine.Proofs.Text.Quotation
import WordMachine.Proofs.Text.Spacing
import WordMachine.Proofs.Assembly.Comments
import WordMachine.Proofs.Assembly.DataLine
import WordMachine.Proofs.Assembly.StringLine
import WordMachine.Proofs.Assembly.CharacterLine
import WordMachine.Proofs.Assembly.Nesting
import WordMachine.Proofs.Console.SharedInput
import WordMachine.Proofs.Emulator.InputOrder
import WordMachine.Proofs.Assembly.Numerals
import WordMachine.Proofs.Machine.Loading
import WordMachine.Proofs.Assembly.Arithmetic
import WordMachine.Proofs.Expression.Identifiers
import WordMachine.Proofs.Assembly.Symbols
