import KeyTree.Arithmetic.Cache
import KeyTree.Arithmetic.Parser
import KeyTree.Arithmetic.Program
import KeyTree.Arithmetic.Token
import KeyTree.Command.Action
import KeyTree.Command.Arguments
import KeyTree.Command.Note
import KeyTree.Command.Request
import KeyTree.Command.Run
import KeyTree.Document.Export
import KeyTree.Document.Import
import KeyTree.Document.Record
import KeyTree.Formula.Evaluation
import KeyTree.Formula.Reference
import KeyTree.Json.Basic
import KeyTree.Json.Lexeme
import KeyTree.Json.Reader
import KeyTree.Json.Writer
import KeyTree.Listing
import KeyTree.Main
import KeyTree.Nesting
import KeyTree.Number.Decimal
import KeyTree.Number.Numeral
import KeyTree.Number.Quanta
import KeyTree.Number.Whole
import KeyTree.Number.Written
import KeyTree.Ordered
import KeyTree.Proofs.Arithmetic.Cache
import KeyTree.Proofs.Arithmetic.Grammar
import KeyTree.Proofs.Arithmetic.Held
import KeyTree.Proofs.Arithmetic.Lexing
import KeyTree.Proofs.Arithmetic.Literal
import KeyTree.Proofs.Arithmetic.Parser
import KeyTree.Proofs.Arithmetic.Recency
import KeyTree.Proofs.Arithmetic.Scanning
import KeyTree.Proofs.Arithmetic.Substitution
import KeyTree.Proofs.Arithmetic.Viable
import KeyTree.Proofs.Command.Actions
import KeyTree.Proofs.Command.Lines
import KeyTree.Proofs.Command.Listing
import KeyTree.Proofs.Command.Runs
import KeyTree.Proofs.Command.Targets
import KeyTree.Proofs.Document.Canonical
import KeyTree.Proofs.Document.Decoding
import KeyTree.Proofs.Document.Export
import KeyTree.Proofs.Document.Import
import KeyTree.Proofs.Document.Names
import KeyTree.Proofs.Document.Normal
import KeyTree.Proofs.Document.Record
import KeyTree.Proofs.Document.Reloading
import KeyTree.Proofs.Document.Restore
import KeyTree.Proofs.Formula.Displayed
import KeyTree.Proofs.Formula.Evaluation
import KeyTree.Proofs.Formula.Gate
import KeyTree.Proofs.Formula.Matches
import KeyTree.Proofs.Formula.NumberReferences
import KeyTree.Proofs.Formula.References
import KeyTree.Proofs.Formula.Substitution
import KeyTree.Proofs.Json.Depth
import KeyTree.Proofs.Json.Lexemes
import KeyTree.Proofs.Json.Numbers
import KeyTree.Proofs.Json.Reading
import KeyTree.Proofs.Json.RoundTrip
import KeyTree.Proofs.Listing
import KeyTree.Proofs.Number.Bits
import KeyTree.Proofs.Number.Digits
import KeyTree.Proofs.Number.Integers
import KeyTree.Proofs.Number.Magnitude
import KeyTree.Proofs.Number.Nearest
import KeyTree.Proofs.Number.Rounding
import KeyTree.Proofs.Number.Shown
import KeyTree.Proofs.Number.Whole
import KeyTree.Proofs.Ordered
import KeyTree.Proofs.Results
import KeyTree.Proofs.Session.Adding
import KeyTree.Proofs.Session.Addressing
import KeyTree.Proofs.Session.Breadcrumbs
import KeyTree.Proofs.Session.Calls
import KeyTree.Proofs.Session.Evaluation
import KeyTree.Proofs.Session.Identity
import KeyTree.Proofs.Session.Refusals
import KeyTree.Proofs.Session.Runs
import KeyTree.Proofs.Session.Saves
import KeyTree.Proofs.Session.Scopes
import KeyTree.Proofs.Session.Twins
import KeyTree.Proofs.Store.Below
import KeyTree.Proofs.Store.Calls
import KeyTree.Proofs.Store.Overlong
import KeyTree.Proofs.Store.Saving
import KeyTree.Proofs.Text.Fields
import KeyTree.Proofs.Text.Markup
import KeyTree.Proofs.Text.Utf8
import KeyTree.Proofs.Text.Verbatim
import KeyTree.Proofs.Tree.Apart
import KeyTree.Proofs.Tree.Change
import KeyTree.Proofs.Tree.Collapsing
import KeyTree.Proofs.Tree.Commuting
import KeyTree.Proofs.Tree.Composing
import KeyTree.Proofs.Tree.Edited
import KeyTree.Proofs.Tree.Edits
import KeyTree.Proofs.Tree.Identity
import KeyTree.Proofs.Tree.Kept
import KeyTree.Proofs.Tree.Lens
import KeyTree.Proofs.Tree.Lookup
import KeyTree.Proofs.Tree.Names
import KeyTree.Proofs.Tree.Outcomes
import KeyTree.Proofs.Tree.Overwriting
import KeyTree.Proofs.Tree.Put
import KeyTree.Proofs.Tree.Scope
import KeyTree.Proofs.Tree.TwinEdits
import KeyTree.Proofs.Tree.Twins
import KeyTree.Proofs.Tree.Ways
import KeyTree.Proofs.Trigger.Consumption
import KeyTree.Proofs.Trigger.LeadingNumber
import KeyTree.Proofs.Trigger.Link
import KeyTree.Proofs.Trigger.Spent
import KeyTree.Proofs.Url.Authority
import KeyTree.Proofs.Url.Library
import KeyTree.Proofs.Url.Paths
import KeyTree.Proofs.Url.Percent
import KeyTree.Proofs.Url.Query
import KeyTree.Proofs.Url.Rewriting
import KeyTree.Session
import KeyTree.Store.Calls
import KeyTree.Store.Files
import KeyTree.Store.Location
import KeyTree.Store.Place
import KeyTree.Store.Settings
import KeyTree.Store.Slot
import KeyTree.Text.Blank
import KeyTree.Text.Digit
import KeyTree.Text.Encoding
import KeyTree.Text.Fields
import KeyTree.Text.LineEnd
import KeyTree.Text.Lossy
import KeyTree.Text.Markup
import KeyTree.Text.Printable
import KeyTree.Text.Quoted
import KeyTree.Text.Terminal
import KeyTree.Tree.Lookup
import KeyTree.Tree.Names
import KeyTree.Tree.Node
import KeyTree.Tree.Path
import KeyTree.Tree.Put
import KeyTree.Tree.Scope
import KeyTree.Tree.Supply
import KeyTree.Trigger.Basic
import KeyTree.Trigger.Link
import KeyTree.Url.Address
import KeyTree.Url.Basic
import KeyTree.Url.Library
import KeyTree.Url.Percent
import KeyTree.Url.Query
import KeyTree.Value.Coercion
import KeyTree.Value.Raw
import KeyTree.Value.Writing
