import Bindery.Availability
import Bindery.Binary64.Basic
import Bindery.Binary64.Decimal
import Bindery.Command.Options
import Bindery.Command.Run
import Bindery.Command.Session
import Bindery.Command.Usage
import Bindery.Diagnostic.Basic
import Bindery.Diagnostic.Printer
import Bindery.Files.Path
import Bindery.Files.Resolve
import Bindery.Files.Tree
import Bindery.Files.Write
import Bindery.Generation.Collision
import Bindery.Generation.Headers
import Bindery.Generation.Journal
import Bindery.Generation.Manifest
import Bindery.Generation.Plan
import Bindery.Generation.Pool
import Bindery.Generation.Report
import Bindery.Generation.Target
import Bindery.Generation.Unit
import Bindery.Header.Basic
import Bindery.Header.C
import Bindery.Header.CRuntime
import Bindery.Header.Conversion
import Bindery.Header.Cpp
import Bindery.Header.CppRuntime
import Bindery.Identifier
import Bindery.Interface.Document
import Bindery.Interface.Registry
import Bindery.Interface.Types
import Bindery.Json.Location
import Bindery.Json.Parser
import Bindery.Json.Printer
import Bindery.Json.Value
import Bindery.Layout
import Bindery.Log.Filter
import Bindery.Log.Line
import Bindery.Log.Logger
import Bindery.Log.Options
import Bindery.Log.Record
import Bindery.Log.Sink
import Bindery.Main
import Bindery.Mapping.Basic
import Bindery.Mapping.Dialect
import Bindery.Mapping.Fault
import Bindery.Mapping.Mapper
import Bindery.Power
import Bindery.Settings.Basic
import Bindery.Settings.Cursor
import Bindery.Settings.Reader
import Bindery.Signature
import Bindery.Sorted
import Bindery.Text
import Bindery.Transfer
import Bindery.Proofs.Decimal
import Bindery.Proofs.Json.Grammar
import Bindery.Proofs.Json.Language
import Bindery.Proofs.Json.RoundTrip
import Bindery.Proofs.Json.Faithful
import Bindery.Proofs.Registry
import Bindery.Proofs.Generation.Outcome
import Bindery.Proofs.Generation.Accounting
import Bindery.Proofs.Generation.Distinctness
import Bindery.Proofs.Mapping.Success
import Bindery.Proofs.Mapping.Admissible
import Bindery.Proofs.Mapping.Dependence
import Bindery.Proofs.Mapping.Containment
import Bindery.Proofs.Mapping.Locality
import Bindery.Proofs.Mapping.NativeSide
import Bindery.Proofs.Header.Names
import Bindery.Proofs.Header.Directives
import Bindery.Proofs.Generation.Locality
import Bindery.Proofs.Generation.NativeSide
import Bindery.Proofs.Generation.SharedAbi
import Bindery.Proofs.Generation.Artifacts
import Bindery.Proofs.Generation.Guards
import Bindery.Proofs.Document.Meaning
import Bindery.Proofs.Document.Reading
import Bindery.Proofs.Document.Faithful
import Bindery.Proofs.Mapping.Spelling
import Bindery.Proofs.Header.Plain
import Bindery.Proofs.Header.Bodies
import Bindery.Proofs.Header.Inclusion
import Bindery.Proofs.Generation.Plain
import Bindery.Proofs.Generation.Includes
import Bindery.Proofs.Strict.Layout
import Bindery.Proofs.Strict.Mapping
import Bindery.Proofs.Strict.Signature
import Bindery.Proofs.Strict.Conversion
import Bindery.Proofs.Strict.Headers
import Bindery.Proofs.Strict.Types
import Bindery.Proofs.Strict.Collision
import Bindery.Proofs.Strict.Generation
import Bindery.Proofs.Registry.Building
import Bindery.Proofs.Log.Gate
import Bindery.Proofs.Generation.SupportNames
import Bindery.Proofs.Layout.Exact
import Bindery.Proofs.Mapping.Sizes
import Bindery.Proofs.Mapping.Unsized
import Bindery.Proofs.Generation.Width
import Bindery.Proofs.Mapping.Shape
import Bindery.Proofs.Command.Effects
import Bindery.Proofs.Command.Outcome
import Bindery.Proofs.Command.Writing
import Bindery.Proofs.Files.Entries
import Bindery.Proofs.Files.Growth
import Bindery.Proofs.Files.Names
import Bindery.Proofs.Files.Paths
import Bindery.Proofs.Generation.Index
import Bindery.Proofs.Generation.Pool
import Bindery.Proofs.Availability
import Bindery.Proofs.Transfer.Borrowing
import Bindery.Proofs.Transfer.Plans
import Bindery.Proofs.Layout.Placement
import Bindery.Proofs.Mapping.Alignment
import Bindery.Proofs.Json.Cursor
import Bindery.Proofs.Json.Following
import Bindery.Proofs.Json.Location
import Bindery.Proofs.Document.Faults
import Bindery.Proofs.Document.Walk
import Bindery.Proofs.Document.Following
import Bindery.Proofs.Document.Paths
import Bindery.Proofs.Document.Independence
import Bindery.Proofs.Document.References
import Bindery.Proofs.Header.Comments
import Bindery.Proofs.Header.Identifiers
import Bindery.Proofs.Generation.Locals
import Bindery.Proofs.Generation.Scopes
import Bindery.Proofs.Settings.Keys
import Bindery.Proofs.Settings.Loops
import Bindery.Proofs.Settings.Blanks
import Bindery.Proofs.Settings.Scan
import Bindery.Proofs.Settings.Following
import Bindery.Proofs.Settings.Verdict
import Bindery.Proofs.Settings.Literals
import Bindery.Proofs.Settings.Lines
import Bindery.Proofs.Settings.Written
import Bindery.Proofs.Command.Pieces
import Bindery.Proofs.Command.Overrides
import Bindery.Proofs.Json.Literals
import Bindery.Proofs.Diagnostic.Listing
import Bindery.Proofs.Log.Line
import Bindery.Proofs.Generation.Namespace
import Bindery.Proofs.Generation.ValueTypes
import Bindery.Proofs.Log.Filter
import Bindery.Proofs.Binary64
import Bindery.Proofs.Json.Equality
