import EndpointBindings.CommandLine.Arguments
import EndpointBindings.CommandLine.Report
import EndpointBindings.CommandLine.Run
import EndpointBindings.Decimal.Binary64
import EndpointBindings.Decimal.Shortest
import EndpointBindings.Disk.Basic
import EndpointBindings.Document.Format
import EndpointBindings.Document.Operation
import EndpointBindings.Document.Printer
import EndpointBindings.Document.Spec
import EndpointBindings.Failure
import EndpointBindings.Json.Basic
import EndpointBindings.Json.Literal
import EndpointBindings.Json.Pointer
import EndpointBindings.Json.Printer
import EndpointBindings.Json.Reader
import EndpointBindings.Main
import EndpointBindings.Node.Basic
import EndpointBindings.Node.Classify
import EndpointBindings.Node.Validator
import EndpointBindings.Ordered
import EndpointBindings.Output.Render
import EndpointBindings.Output.Writer
import EndpointBindings.Proofs.Composition.Aliases
import EndpointBindings.Proofs.Composition.Congruence
import EndpointBindings.Proofs.Composition.Expansion
import EndpointBindings.Proofs.Composition.Positions
import EndpointBindings.Proofs.Composition.Termination
import EndpointBindings.Proofs.Composition.Wrapping
import EndpointBindings.Proofs.Decimal.Rounding
import EndpointBindings.Proofs.Decimal.Shortest
import EndpointBindings.Proofs.Dialects.Agreement
import EndpointBindings.Proofs.Dialects.Assembly
import EndpointBindings.Proofs.Dialects.Bodies
import EndpointBindings.Proofs.Dialects.Declarations
import EndpointBindings.Proofs.Dialects.DocumentOrder
import EndpointBindings.Proofs.Dialects.Items
import EndpointBindings.Proofs.Dialects.Modernize
import EndpointBindings.Proofs.Dialects.NormalForm
import EndpointBindings.Proofs.Dialects.Operations
import EndpointBindings.Proofs.Dialects.Outline
import EndpointBindings.Proofs.Dialects.Parameters
import EndpointBindings.Proofs.Dialects.Paths
import EndpointBindings.Proofs.Dialects.PropertyOrder
import EndpointBindings.Proofs.Dialects.References
import EndpointBindings.Proofs.Dialects.Renaming
import EndpointBindings.Proofs.Dialects.Schemas
import EndpointBindings.Proofs.Dialects.Slots
import EndpointBindings.Proofs.Dialects.Targets
import EndpointBindings.Proofs.Dialects.VerbOrder
import EndpointBindings.Proofs.Disk.Frame
import EndpointBindings.Proofs.Document.Acceptance
import EndpointBindings.Proofs.Document.RoundTrip
import EndpointBindings.Proofs.Document.Sources
import EndpointBindings.Proofs.Json.Parts
import EndpointBindings.Proofs.Json.Pointers
import EndpointBindings.Proofs.Json.WellFormed
import EndpointBindings.Proofs.Node.Traversal
import EndpointBindings.Proofs.Node.WellFormed
import EndpointBindings.Proofs.Output.FileNames
import EndpointBindings.Proofs.Output.Imports
import EndpointBindings.Proofs.Output.OwnFiles
import EndpointBindings.Proofs.Output.Trace
import EndpointBindings.Proofs.References.Components
import EndpointBindings.Proofs.References.Declared
import EndpointBindings.Proofs.References.Resolution
import EndpointBindings.Proofs.Routes.Extraction
import EndpointBindings.Proofs.Routes.Locality
import EndpointBindings.Proofs.Routes.OutsidePaths
import EndpointBindings.Proofs.Routes.Overrides
import EndpointBindings.Proofs.Routes.Parameters
import EndpointBindings.Proofs.Routes.Templates
import EndpointBindings.Proofs.Routes.VerbSpelling
import EndpointBindings.Proofs.Schema.Fields
import EndpointBindings.Proofs.Schema.Independence
import EndpointBindings.Proofs.Schema.Keywords
import EndpointBindings.Proofs.Schema.RoundTrip
import EndpointBindings.Proofs.Source.Containment
import EndpointBindings.Proofs.Source.Declarations
import EndpointBindings.Proofs.Source.Identifiers
import EndpointBindings.Proofs.Source.Indentation
import EndpointBindings.Proofs.Source.Lexer
import EndpointBindings.Proofs.Source.Literals
import EndpointBindings.Proofs.Source.Names
import EndpointBindings.Proofs.Source.Statements
import EndpointBindings.Proofs.Source.Template
import EndpointBindings.Proofs.Source.Wiring
import EndpointBindings.Proofs.Tables
import EndpointBindings.Proofs.Tables.Related
import EndpointBindings.Proofs.Validator.Expression
import EndpointBindings.Proofs.Validator.Fallback
import EndpointBindings.Proofs.Validator.Layout
import EndpointBindings.Proofs.Validator.Lexer
import EndpointBindings.Proofs.Validator.Meaning
import EndpointBindings.Proofs.Validator.Names
import EndpointBindings.Proofs.Validator.Numeral
import EndpointBindings.Proofs.Validator.Parser
import EndpointBindings.Proofs.Yaml.Conversion
import EndpointBindings.Route.Extract
import EndpointBindings.Route.Table
import EndpointBindings.Schema.Basic
import EndpointBindings.Schema.Composition
import EndpointBindings.Swagger.Conversion
import EndpointBindings.Swagger.Parameters
import EndpointBindings.Text.Escape
import EndpointBindings.Text.Split
import EndpointBindings.TypeScript.Basic
import EndpointBindings.Yaml.Block
import EndpointBindings.Yaml.Cursor
import EndpointBindings.Yaml.Layout
import EndpointBindings.Yaml.Meaning
import EndpointBindings.Yaml.Node
import EndpointBindings.Yaml.Resolve
import EndpointBindings.Yaml.Scalar
import EndpointBindings.Yaml.Tag
import EndpointBindings.Yaml.Value
