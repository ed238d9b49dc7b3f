import WireSchema.Catalog.Basic
import WireSchema.Catalog.Document
import WireSchema.Catalog.Extraction
import WireSchema.Command.Argument
import WireSchema.Command.Help
import WireSchema.Command.Request
import WireSchema.Command.Run
import WireSchema.Config.Basic
import WireSchema.Config.Document
import WireSchema.Config.File
import WireSchema.Emit.Comment
import WireSchema.Emit.Declaration
import WireSchema.Emit.Files
import WireSchema.Emit.Names
import WireSchema.Emit.Options
import WireSchema.Emit.Order
import WireSchema.Emit.Paths
import WireSchema.Emit.Scope
import WireSchema.Extraction.Basic
import WireSchema.Extraction.Walk
import WireSchema.FileTree.Basic
import WireSchema.FileTree.Path
import WireSchema.Generation.Emission
import WireSchema.Generation.Extractor
import WireSchema.Generation.Pipeline
import WireSchema.Json.Basic
import WireSchema.Json.Numeral
import WireSchema.Json.Printer
import WireSchema.Json.Reader
import WireSchema.Json.View
import WireSchema.Main
import WireSchema.Number.Binary64
import WireSchema.Number.Decimal
import WireSchema.Number.Word
import WireSchema.Proofs.Catalog.Extraction
import WireSchema.Proofs.Catalog.Keeping
import WireSchema.Proofs.Catalog.Nameless
import WireSchema.Proofs.Emit.Alike
import WireSchema.Proofs.Emit.Comment
import WireSchema.Proofs.Emit.Declaration
import WireSchema.Proofs.Emit.ExportNames
import WireSchema.Proofs.Emit.Exports
import WireSchema.Proofs.Emit.Files
import WireSchema.Proofs.Emit.Identifiers
import WireSchema.Proofs.Emit.Literals
import WireSchema.Proofs.Emit.Mentions
import WireSchema.Proofs.Emit.Names
import WireSchema.Proofs.Emit.Order
import WireSchema.Proofs.Emit.Program
import WireSchema.Proofs.Emit.Reading
import WireSchema.Proofs.Emit.Rendering
import WireSchema.Proofs.Emit.Sequence
import WireSchema.Proofs.Emit.Stems
import WireSchema.Proofs.Emit.Visible
import WireSchema.Proofs.Emit.WantedNames
import WireSchema.Proofs.Extraction.Invariant
import WireSchema.Proofs.Extraction.Step
import WireSchema.Proofs.Extraction.Unwarned
import WireSchema.Proofs.FileTree.Growth
import WireSchema.Proofs.FileTree.Steps
import WireSchema.Proofs.Generation.Artifacts
import WireSchema.Proofs.Generation.Definitions
import WireSchema.Proofs.Generation.Destinations
import WireSchema.Proofs.Generation.Emission
import WireSchema.Proofs.Generation.Factories
import WireSchema.Proofs.Generation.FieldCases
import WireSchema.Proofs.Generation.Findings
import WireSchema.Proofs.Generation.Modules
import WireSchema.Proofs.Generation.Nameless
import WireSchema.Proofs.Generation.Pointers
import WireSchema.Proofs.Generation.Refinements
import WireSchema.Proofs.Generation.Reordered
import WireSchema.Proofs.Generation.Runs
import WireSchema.Proofs.Generation.Schema
import WireSchema.Proofs.Generation.ServiceNames
import WireSchema.Proofs.Generation.Visible
import WireSchema.Proofs.Json.Numeral
import WireSchema.Proofs.Json.RoundTrip
import WireSchema.Proofs.Json.View
import WireSchema.Proofs.Outcome
import WireSchema.Proofs.Route.Services
import WireSchema.Proofs.Rules.Fold
import WireSchema.Proofs.Rules.Numbers
import WireSchema.Proofs.Rules.Overflow
import WireSchema.Proofs.Rules.Spelling
import WireSchema.Proofs.Rules.Words
import WireSchema.Proofs.Schema.Interchange
import WireSchema.Proofs.Schema.Parts
import WireSchema.Proofs.Schema.Places
import WireSchema.Proofs.Schema.Plain
import WireSchema.Proofs.Schema.Sorted
import WireSchema.Proofs.Schema.Synonyms
import WireSchema.Proofs.Schema.Visible
import WireSchema.Proofs.Sink.Directory
import WireSchema.Proofs.Source.Arithmetic
import WireSchema.Proofs.Source.Clash
import WireSchema.Proofs.Source.Confined
import WireSchema.Proofs.Source.ConstGroups
import WireSchema.Proofs.Source.Constants
import WireSchema.Proofs.Source.Endless
import WireSchema.Proofs.Source.Extraction
import WireSchema.Proofs.Source.Finite
import WireSchema.Proofs.Source.Flow
import WireSchema.Proofs.Source.Instances
import WireSchema.Proofs.Source.Integers
import WireSchema.Proofs.Source.Keeping
import WireSchema.Proofs.Source.Kinds
import WireSchema.Proofs.Source.Limits
import WireSchema.Proofs.Source.Literals
import WireSchema.Proofs.Source.Lower
import WireSchema.Proofs.Source.Nameless
import WireSchema.Proofs.Source.Parts
import WireSchema.Proofs.Source.Program
import WireSchema.Proofs.Source.Requests
import WireSchema.Proofs.Source.Termination
import WireSchema.Proofs.Source.TwoWays
import WireSchema.Proofs.Source.Values
import WireSchema.Proofs.Tag.Pairs
import WireSchema.Proofs.TypeExpr.Heads
import WireSchema.Proofs.TypeExpr.Names
import WireSchema.Proofs.TypeExpr.Order
import WireSchema.Proofs.TypeExpr.Parts
import WireSchema.Proofs.TypeExpr.Reading
import WireSchema.Proofs.TypeExpr.Rereading
import WireSchema.Proofs.TypeExpr.RoundTrip
import WireSchema.Proofs.TypeExpr.Spelling
import WireSchema.Proofs.Validation.Checks
import WireSchema.Proofs.Validation.Counts
import WireSchema.Proofs.Validation.Cycles
import WireSchema.Proofs.Validation.Encoding
import WireSchema.Proofs.Validator.Builders
import WireSchema.Proofs.Validator.Outcome
import WireSchema.Proofs.Validator.Program
import WireSchema.Proofs.Validator.Rendering
import WireSchema.Route.Basic
import WireSchema.Route.Document
import WireSchema.Rules.Basic
import WireSchema.Rules.Effect
import WireSchema.Rules.Field
import WireSchema.Schema.Basic
import WireSchema.Schema.Name
import WireSchema.Schema.Reader
import WireSchema.Schema.Type
import WireSchema.Schema.Writer
import WireSchema.Sink.Basic
import WireSchema.Source.Bound
import WireSchema.Source.Constant
import WireSchema.Source.Cursor
import WireSchema.Source.Declaration
import WireSchema.Source.DocText
import WireSchema.Source.Enumeration
import WireSchema.Source.Extraction
import WireSchema.Source.File
import WireSchema.Source.Lexer
import WireSchema.Source.Literal
import WireSchema.Source.Lower
import WireSchema.Source.Module
import WireSchema.Source.Package
import WireSchema.Source.Preference
import WireSchema.Source.Reader
import WireSchema.Source.Scope
import WireSchema.Source.Shown
import WireSchema.Source.Statement
import WireSchema.Source.Syntax
import WireSchema.Source.Token
import WireSchema.Source.Walk
import WireSchema.Tag.Basic
import WireSchema.Tag.Wire
import WireSchema.Text.Blank
import WireSchema.Text.Letter
import WireSchema.Text.Quoted
import WireSchema.Text.Split
import WireSchema.Text.Unprintable
import WireSchema.Text.Utf8
import WireSchema.Toml.Reader
import WireSchema.Toml.Table
import WireSchema.Toml.Text
import WireSchema.TypeExpr.Basic
import WireSchema.TypeExpr.Builtin
import WireSchema.TypeExpr.Instance
import WireSchema.TypeExpr.Reader
import WireSchema.Validation.Basic
import WireSchema.Validation.Inheritance
import WireSchema.Validation.Violation
import WireSchema.Validator.Basic
import WireSchema.Validator.Dialect
import WireSchema.Validator.Registry
import WireSchema.Validator.Valibot
import WireSchema.Validator.Zod
