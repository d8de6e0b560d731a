import DomainScaffold.Files.Tree
import DomainScaffold.Main
import DomainScaffold.Project
import DomainScaffold.Proofs.Generation.HandWritten
import DomainScaffold.Proofs.Merge.Completeness
import DomainScaffold.Proofs.Merge.Distinct
import DomainScaffold.Proofs.Merge.Frame
import DomainScaffold.Proofs.Merge.Idempotence
import DomainScaffold.Proofs.Merge.Layout
import DomainScaffold.Proofs.Merge.Registrations
import DomainScaffold.Proofs.Merge.Resumption
import DomainScaffold.Proofs.Php.LineBreaks
import DomainScaffold.Schema.Position
import DomainScaffold.Proofs.Generation.Artifacts
import DomainScaffold.Proofs.Generation.SecondRun
import DomainScaffold.Proofs.Merge.Comments
import DomainScaffold.Proofs.Php.Declared
import DomainScaffold.Proofs.Php.Respelling
import DomainScaffold.Proofs.Php.RoundTrip
import DomainScaffold.Proofs.Generation.DocumentClasses
import DomainScaffold.Proofs.Generation.References
import DomainScaffold.Proofs.Generation.SchemaFiles
import DomainScaffold.Proofs.Generation.Readable
import DomainScaffold.Proofs.Generation.Collisions
import DomainScaffold.Proofs.Generation.Containment
import DomainScaffold.Proofs.Schema.History
import DomainScaffold.Proofs.Graph.Ownership
import DomainScaffold.Proofs.Naming.Autoload
import DomainScaffold.Proofs.Php.ExpressionStatements
import DomainScaffold.Proofs.Merge.Modified
import DomainScaffold.Proofs.Merge.LocalNames
import DomainScaffold.Proofs.Merge.Replacement
import DomainScaffold.Proofs.Merge.Placement
import DomainScaffold.Proofs.Merge.Promotion
import DomainScaffold.Proofs.Merge.Recognition
import DomainScaffold.Proofs.Php.UseDeclarations
import DomainScaffold.Proofs.Schema.Links
import DomainScaffold.Proofs.Generation.Expansion
import DomainScaffold.Proofs.Generation.NestedClasses
import DomainScaffold.Proofs.Merge.Contents
import DomainScaffold.Proofs.Generation.RecordFields
import DomainScaffold.Proofs.Schema.Nodes
import DomainScaffold.Proofs.Graph.Connections
import DomainScaffold.Proofs.Schema.Nullability
import DomainScaffold.Proofs.Schema.ShorthandObjects
import DomainScaffold.Proofs.Naming.WordBounds
import DomainScaffold.Proofs.Generation.Grouping
import DomainScaffold.Proofs.Generation.Reported
import DomainScaffold.Proofs.Naming.Spellings
