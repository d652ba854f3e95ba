import FormScaffold.Archive.Pack
import FormScaffold.Compile.Engine
import FormScaffold.Contract.Build
import FormScaffold.Expression.Evaluation
import FormScaffold.Files.Change
import FormScaffold.Json.Printer
import FormScaffold.Json.Reader
import FormScaffold.Log.Line
import FormScaffold.Main
import FormScaffold.Metadata.Dumps
import FormScaffold.Metadata.Site
import FormScaffold.Region.Merge
import FormScaffold.Service.Route
import FormScaffold.Sync.Run
import FormScaffold.View.Render
import FormScaffold.Yaml.Reader
import FormScaffold.Proofs.Region.Scanning
import FormScaffold.Proofs.Region.Splicing
import FormScaffold.Proofs.Traversal
import FormScaffold.Proofs.Region.Merging
import FormScaffold.Proofs.Expression.Grammar
import FormScaffold.Proofs.Expression.Reading
import FormScaffold.Proofs.Region.PlainText
import FormScaffold.Proofs.Text.Words
import FormScaffold.Proofs.Text.CodePoints
import FormScaffold.Proofs.Region.Document
import FormScaffold.Proofs.Naming
import FormScaffold.Proofs.View.Calm
import FormScaffold.Proofs.View.Template
import FormScaffold.Proofs.Contract.Transitions
import FormScaffold.Proofs.View.Comment
import FormScaffold.Proofs.View.Bodies
import FormScaffold.Proofs.View.Documents
import FormScaffold.Proofs.View.Rendering
import FormScaffold.Proofs.Text.Endings
import FormScaffold.Proofs.Region.Remerging
import FormScaffold.Proofs.Files.Contents
import FormScaffold.Proofs.Files.Walking
import FormScaffold.Proofs.Files.Changing
import FormScaffold.Proofs.Sync.Destination
import FormScaffold.Proofs.Sync.Filing
import FormScaffold.Proofs.View.Places
import FormScaffold.Proofs.Sync.Running
import FormScaffold.Proofs.Sync.Settling
import FormScaffold.Proofs.Region.Cutting
import FormScaffold.Proofs.Region.Converging
import FormScaffold.Proofs.Files.Resolving
import FormScaffold.Proofs.Sync.Editing
import FormScaffold.Proofs.Sync.Turns
import FormScaffold.Proofs.Sync.Footprint
import FormScaffold.Proofs.Sync.Confinement
import FormScaffold.Proofs.Json.Scanning
import FormScaffold.Proofs.Json.WellFormed
import FormScaffold.Proofs.Json.RoundTrip
import FormScaffold.Proofs.Contract.Plain
import FormScaffold.Proofs.Contract.Schemas
import FormScaffold.Proofs.Expression.Literals
import FormScaffold.Proofs.View.Declaring
import FormScaffold.Proofs.View.Roles
import FormScaffold.Proofs.View.Granting
import FormScaffold.Proofs.View.Embedding
import FormScaffold.Proofs.Text.Stacking
import FormScaffold.Proofs.Text.Recasting
import FormScaffold.Proofs.Region.Marks
import FormScaffold.Proofs.Region.Finding
import FormScaffold.Proofs.Region.Refilling
import FormScaffold.Proofs.Sync.Reaching
import FormScaffold.Proofs.Sync.Rendered
import FormScaffold.Proofs.Sync.Rehearsing
import FormScaffold.Proofs.Sync.Keeping
import FormScaffold.Proofs.Contract.Rows
import FormScaffold.Proofs.Contract.Children
import FormScaffold.Proofs.Contract.Assembling
import FormScaffold.Proofs.Contract.Overflow
import FormScaffold.Proofs.Contract.Textual
import FormScaffold.Proofs.Contract.Failing
import FormScaffold.Proofs.Contract.Types
import FormScaffold.Proofs.Number.Text
import FormScaffold.Proofs.Value.Likeness
import FormScaffold.Proofs.Archive.Encoding
import FormScaffold.Proofs.Archive.Inflating
import FormScaffold.Proofs.Archive.Zipping
import FormScaffold.Proofs.Archive.EntryName
import FormScaffold.Proofs.Archive.Packing
import FormScaffold.Proofs.View.Sizes
import FormScaffold.Proofs.View.Encoding
import FormScaffold.Proofs.Archive.Rendered
import FormScaffold.Proofs.Files.Alike
import FormScaffold.Proofs.Sync.Locality
import FormScaffold.Proofs.Sync.Delivering
import FormScaffold.Proofs.View.Collisions
import FormScaffold.Proofs.Contract.Granted
import FormScaffold.Proofs.Region.Nesting
import FormScaffold.Proofs.Expression.Lexing
import FormScaffold.Proofs.Expression.Joining
import FormScaffold.Proofs.Expression.References
import FormScaffold.Proofs.Metadata.Dumping
import FormScaffold.Proofs.Region.Assembling
import FormScaffold.Proofs.Expression.Membership
import FormScaffold.Proofs.Contract.Overriding
import FormScaffold.Proofs.Contract.Layout
import FormScaffold.Proofs.Contract.Fetching
import FormScaffold.Proofs.Contract.Columns
import FormScaffold.Proofs.Metadata.Ticking
import FormScaffold.Proofs.Metadata.Anchoring
import FormScaffold.Proofs.Metadata.Setters
import FormScaffold.Proofs.Region.Changed
import FormScaffold.Proofs.Sync.Reporting
import FormScaffold.Proofs.Region.Carriage
import FormScaffold.Proofs.Archive.Accepting
import FormScaffold.Proofs.Sync.Order
import FormScaffold.Proofs.View.TopNames
import FormScaffold.Proofs.View.Functions
import FormScaffold.Proofs.View.Commenting
import FormScaffold.Proofs.Region.Places
import FormScaffold.Proofs.Expression.Height
import FormScaffold.Proofs.View.Literals
