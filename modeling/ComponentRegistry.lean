import ComponentRegistry.Main
import ComponentRegistry.Serving.Request
import ComponentRegistry.Store.Memory
import ComponentRegistry.Proofs.OrderedMap
import ComponentRegistry.Proofs.Outcome
import ComponentRegistry.Proofs.Resolution.Address
import ComponentRegistry.Proofs.Resolution.Discovery
import ComponentRegistry.Proofs.Resolution.Closure
import ComponentRegistry.Proofs.Resolution.Serving
import ComponentRegistry.Proofs.Lexing.Nesting
import ComponentRegistry.Proofs.Syntax.Passing
import ComponentRegistry.Proofs.Syntax.Survey
import ComponentRegistry.Proofs.Syntax.TopLevel
import ComponentRegistry.Proofs.Seam.Basic
import ComponentRegistry.Proofs.Seam.Import
import ComponentRegistry.Proofs.Seam.Skipping
import ComponentRegistry.Proofs.Seam.Pattern
import ComponentRegistry.Proofs.Seam.Declaration
import ComponentRegistry.Proofs.Seam.Export
import ComponentRegistry.Proofs.Lexing.Locality
import ComponentRegistry.Proofs.Seam.Survey
import ComponentRegistry.Proofs.Seam.Shifting
import ComponentRegistry.Proofs.Lexing.Moving
import ComponentRegistry.Proofs.Lexing.Concatenation
import ComponentRegistry.Proofs.Syntax.Concatenation
import ComponentRegistry.Proofs.Store.Columns
import ComponentRegistry.Proofs.Store.Table
import ComponentRegistry.Proofs.Store.Mirroring
import ComponentRegistry.Proofs.Store.Metadata
import ComponentRegistry.Proofs.Store.Refusing
import ComponentRegistry.Proofs.Store.HandedLabels
import ComponentRegistry.Proofs.Submission
import ComponentRegistry.Proofs.Lexing.Lines
import ComponentRegistry.Proofs.Lexing.Losslessness
import ComponentRegistry.Proofs.Rewrite.Rendering
import ComponentRegistry.Proofs.Rewrite.SelfImport
import ComponentRegistry.Proofs.Store.Running
import ComponentRegistry.Proofs.Store.Race
import ComponentRegistry.Proofs.Lexing.Exchange
import ComponentRegistry.Proofs.Lexing.Omission
import ComponentRegistry.Proofs.Rewrite.Exchange
import ComponentRegistry.Proofs.Rewrite.RoundTrip
import ComponentRegistry.Proofs.Rewrite.Edit
import ComponentRegistry.Proofs.Rewrite.AsyncWord
import ComponentRegistry.Proofs.Rewrite.AsyncExport
import ComponentRegistry.Proofs.Resolution.Naming
import ComponentRegistry.Proofs.Store.Counting
import ComponentRegistry.Proofs.Store.Gate
import ComponentRegistry.Proofs.Store.Repeating
import ComponentRegistry.Proofs.Store.Differing
import ComponentRegistry.Proofs.Dependency.Partition
import ComponentRegistry.Proofs.Lexing.Bracing
import ComponentRegistry.Proofs.Lexing.Places
import ComponentRegistry.Proofs.Lexing.Dropping
import ComponentRegistry.Proofs.Lexing.Trailing
import ComponentRegistry.Proofs.Syntax.Spans
import ComponentRegistry.Proofs.Rewrite.Splicing
import ComponentRegistry.Proofs.Rewrite.Removal
import ComponentRegistry.Proofs.Rewrite.AsyncPlace
import ComponentRegistry.Proofs.Rewrite.DefaultDeclaration
import ComponentRegistry.Proofs.Rewrite.Trailer
import ComponentRegistry.Proofs.Rewrite.Simultaneous
import ComponentRegistry.Proofs.Rewrite.DefaultExport
import ComponentRegistry.Proofs.Syntax.Loops
import ComponentRegistry.Proofs.Syntax.Progress
import ComponentRegistry.Proofs.Syntax.LineBreak
import ComponentRegistry.Proofs.Syntax.LoneName
import ComponentRegistry.Proofs.Syntax.Binding
import ComponentRegistry.Proofs.Source.ExportedNames
import ComponentRegistry.Proofs.Dependency.Versions
import ComponentRegistry.Proofs.Resolution.Scheduling
import ComponentRegistry.Proofs.Source.RenderEntry
import ComponentRegistry.Proofs.Dependency.PackageNames
import ComponentRegistry.Proofs.Text.Lines
import ComponentRegistry.Proofs.Text.Excerpt
import ComponentRegistry.Proofs.Decimal.Doubling
import ComponentRegistry.Proofs.Serving.Retrying
import ComponentRegistry.Proofs.Likeness.Basic
import ComponentRegistry.Proofs.Likeness.Skipping
import ComponentRegistry.Proofs.Likeness.Import
import ComponentRegistry.Proofs.Likeness.Declaration
import ComponentRegistry.Proofs.Likeness.Export
import ComponentRegistry.Proofs.Likeness.Groups
import ComponentRegistry.Proofs.Syntax.FaultPlaces
import ComponentRegistry.Proofs.Lexing.CarriageReturn
import ComponentRegistry.Proofs.Lexing.LineEndings
import ComponentRegistry.Proofs.Source.LineEndings
