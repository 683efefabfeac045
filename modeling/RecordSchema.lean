import RecordSchema.Main
import RecordSchema.Proofs.Double.Rounding
import RecordSchema.Proofs.Fields
import RecordSchema.Proofs.Outcome
import RecordSchema.Proofs.Record
import RecordSchema.Proofs.Record.Place
import RecordSchema.Proofs.Reply.Contents
import RecordSchema.Proofs.Reply.RoundTrip
import RecordSchema.Proofs.Description
import RecordSchema.Proofs.Registry
import RecordSchema.Proofs.Compiler.Entry
import RecordSchema.Proofs.Compiler.Merge
import RecordSchema.Proofs.Description.Grammar
import RecordSchema.Proofs.Compiler.Report
import RecordSchema.Proofs.Compiler.Strict
import RecordSchema.Proofs.Compiler.Repeat
import RecordSchema.Proofs.Registry.Construct
import RecordSchema.Proofs.Description.Layout
import RecordSchema.Proofs.Token.Resume
import RecordSchema.Proofs.Description.Trailing
import RecordSchema.Proofs.Record.WellFormed
import RecordSchema.Proofs.Record.Made
import RecordSchema.Proofs.Json.Strings
import RecordSchema.Proofs.Catalogue.Source
import RecordSchema.Proofs.Compiler.Fresh
import RecordSchema.Proofs.Text.Lines
import RecordSchema.Proofs.Catalogue.Rows
import RecordSchema.Proofs.Catalogue.RoundTrip
import RecordSchema.Proofs.Catalogue.Entries
import RecordSchema.Proofs.Token.Words
import RecordSchema.Proofs.Description.Words
import RecordSchema.Proofs.Compiler.WellFormed
import RecordSchema.Proofs.Reply.Plain
import RecordSchema.Proofs.Reply.Instantiated
import RecordSchema.Proofs.Compiler.Reorder
import RecordSchema.Proofs.Token.Stream
import RecordSchema.Proofs.Token.Alternation
import RecordSchema.Proofs.Description.Refusal
import RecordSchema.Proofs.Description.Viable
import RecordSchema.Proofs.Description.Textual
import RecordSchema.Proofs.Registry.Filled
import RecordSchema.Proofs.Reply.Held
import RecordSchema.Proofs.Reply.Limits
import RecordSchema.Proofs.Reply.Typing
import RecordSchema.Proofs.Reply.KeyOrder
import RecordSchema.Proofs.Registry.Offers
import RecordSchema.Proofs.Record.Remove
import RecordSchema.Proofs.Record.Access
import RecordSchema.Proofs.Registry.Bounded
import RecordSchema.Proofs.Path.Cursor
import RecordSchema.Proofs.Sequence
import RecordSchema.Proofs.Double.Shortest
import RecordSchema.Proofs.Json.Numbers
import RecordSchema.Proofs.Json.RoundTrip
import RecordSchema.Proofs.Reply.Nesting
import RecordSchema.Proofs.Zstd.Reading
import RecordSchema.Proofs.Catalogue.Inflate
import RecordSchema.Proofs.Token.Stack
import RecordSchema.Proofs.Cli.Tokens
