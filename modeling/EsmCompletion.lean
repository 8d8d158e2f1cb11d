import EsmCompletion.Buffer
import EsmCompletion.CommandLine.Arguments
import EsmCompletion.CommandLine.Run
import EsmCompletion.CommandLine.Serve
import EsmCompletion.Configuration
import EsmCompletion.Decimal
import EsmCompletion.Disk
import EsmCompletion.DottedWord
import EsmCompletion.Exports
import EsmCompletion.FileTree.Basic
import EsmCompletion.FileTree.Change
import EsmCompletion.Hexadecimal
import EsmCompletion.Imports
import EsmCompletion.Json.Reader
import EsmCompletion.Json.Value
import EsmCompletion.Json.Writer
import EsmCompletion.ListFormat
import EsmCompletion.Log.Event
import EsmCompletion.Log.Filter
import EsmCompletion.Log.Journal
import EsmCompletion.Main
import EsmCompletion.ModuleCache
import EsmCompletion.ModuleFault
import EsmCompletion.OrderedMap
import EsmCompletion.Path
import EsmCompletion.Proofs.Buffer.Line
import EsmCompletion.Proofs.Buffer.LineEndings
import EsmCompletion.Proofs.Cache.Accounting
import EsmCompletion.Proofs.Cache.Failure
import EsmCompletion.Proofs.Cache.Provenance
import EsmCompletion.Proofs.Cache.Run
import EsmCompletion.Proofs.CommandLine.Answers
import EsmCompletion.Proofs.CommandLine.Arguments
import EsmCompletion.Proofs.CommandLine.Effects
import EsmCompletion.Proofs.CommandLine.FrontEnds
import EsmCompletion.Proofs.CommandLine.LineProtocol
import EsmCompletion.Proofs.Configuration.Layout
import EsmCompletion.Proofs.Configuration.Sources
import EsmCompletion.Proofs.DottedWord.AtEnd
import EsmCompletion.Proofs.DottedWord.Pattern
import EsmCompletion.Proofs.Exports.Collected
import EsmCompletion.Proofs.Exports.Listable
import EsmCompletion.Proofs.FileTree.Growth
import EsmCompletion.Proofs.FileTree.Lookup
import EsmCompletion.Proofs.FileTree.NormalForm
import EsmCompletion.Proofs.Imports.Aliases
import EsmCompletion.Proofs.Imports.Declared
import EsmCompletion.Proofs.Imports.Lines
import EsmCompletion.Proofs.Imports.Lookahead
import EsmCompletion.Proofs.Imports.ModulePath
import EsmCompletion.Proofs.Imports.Resolution
import EsmCompletion.Proofs.Imports.Statement
import EsmCompletion.Proofs.Json.Grammar
import EsmCompletion.Proofs.Json.Line
import EsmCompletion.Proofs.Json.RoundTrip
import EsmCompletion.Proofs.ListFormat.Lines
import EsmCompletion.Proofs.Log.Footprint
import EsmCompletion.Proofs.Log.Frame
import EsmCompletion.Proofs.Log.Lines
import EsmCompletion.Proofs.Path.BaseName
import EsmCompletion.Proofs.Path.Canonical
import EsmCompletion.Proofs.Path.NormalForm
import EsmCompletion.Proofs.Session.Faithful
import EsmCompletion.Proofs.Session.Fetches
import EsmCompletion.Proofs.Session.Frame
import EsmCompletion.Proofs.Session.LineEndings
import EsmCompletion.Proofs.Session.Listing
import EsmCompletion.Proofs.Session.Locations
import EsmCompletion.Proofs.Session.Narrowing
import EsmCompletion.Proofs.Session.Notices
import EsmCompletion.Proofs.Session.OneRecord
import EsmCompletion.Proofs.Session.Reach
import EsmCompletion.Proofs.Session.Renewal
import EsmCompletion.Proofs.Session.Run
import EsmCompletion.Proofs.Session.Uncached
import EsmCompletion.Proofs.Suggestion.Placeholders
import EsmCompletion.Proofs.Text.Pieces
import EsmCompletion.Script.Grammar.Binding
import EsmCompletion.Script.Grammar.Class
import EsmCompletion.Script.Grammar.Expression
import EsmCompletion.Script.Grammar.Function
import EsmCompletion.Script.Grammar.Module
import EsmCompletion.Script.Grammar.Reader
import EsmCompletion.Script.Grammar.Rules
import EsmCompletion.Script.Grammar.Statement
import EsmCompletion.Script.Grammar.Template
import EsmCompletion.Script.Grammar.Types
import EsmCompletion.Script.Grammar.Variables
import EsmCompletion.Script.IdentifierChar
import EsmCompletion.Script.Keyword
import EsmCompletion.Script.Name
import EsmCompletion.Script.NumericLiteral
import EsmCompletion.Script.Program
import EsmCompletion.Script.Punctuator
import EsmCompletion.Script.RegularExpression
import EsmCompletion.Script.StringLiteral
import EsmCompletion.Script.Syntax
import EsmCompletion.Script.TemplateChunk
import EsmCompletion.Script.Token
import EsmCompletion.Session
import EsmCompletion.Suggestion
import EsmCompletion.Unicode.Digits
import EsmCompletion.Unicode.Letters
import EsmCompletion.Unicode.Marks
import EsmCompletion.Unicode.Ranges
import EsmCompletion.Unicode.Word
