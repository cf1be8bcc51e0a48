import SqlFlow.Database.Rehearsal
import SqlFlow.Dialect.Settings
import SqlFlow.Program.Listing
import SqlFlow.Proofs.Grammar
import SqlFlow.Proofs.Transaction.Atomicity
import SqlFlow.Script
import SqlFlow.Proofs.Members
import SqlFlow.Proofs.Targets
import SqlFlow.Proofs.Enclosure
import SqlFlow.Proofs.Run.Scopes
import SqlFlow.Proofs.Run.Progress
import SqlFlow.Proofs.Lexer.Readers
import SqlFlow.Proofs.Lexer.Splitting
import SqlFlow.Proofs.Run.Sequence
import SqlFlow.Proofs.Transaction.Block
import SqlFlow.Proofs.Text.Trim
import SqlFlow.Proofs.Lexer.Runs
import SqlFlow.Proofs.Lexer.Layout
import SqlFlow.Proofs.Lexer.Locality
import SqlFlow.Proofs.Lexer.Rendering
import SqlFlow.Proofs.Lexer.Joining
import SqlFlow.Proofs.Reporting
import SqlFlow.Proofs.Run.Effects
import SqlFlow.Proofs.Run.Unwinding
import SqlFlow.Proofs.Run.Erasure
import SqlFlow.Proofs.Transaction.Restoring
import SqlFlow.Proofs.Lexer.Visiting
import SqlFlow.Proofs.Lexer.FlatComments
import SqlFlow.Proofs.Lexer.Quoting
import SqlFlow.Proofs.Lexer.Contents
import SqlFlow.Proofs.Refusal
import SqlFlow.Proofs.Run.Chains
import SqlFlow.Proofs.Number.Numerals
import SqlFlow.Proofs.Tree.Insertion
import SqlFlow.Proofs.Tree.Shifting
import SqlFlow.Proofs.Run.Debugging
import SqlFlow.Proofs.Lines
import SqlFlow.Proofs.Run.Account
import SqlFlow.Proofs.Unclosed
import SqlFlow.Proofs.Settings
import SqlFlow.Proofs.Listing
import SqlFlow.Proofs.Lexer.Bounds
