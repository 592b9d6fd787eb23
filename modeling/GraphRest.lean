import GraphRest.Main
import GraphRest.Settings.Schema
import GraphRest.Proofs.Data.OrderedMap
import GraphRest.Proofs.Data.SortedMap
import GraphRest.Proofs.Sdl.Lawful
import GraphRest.Proofs.Document.Writes
import GraphRest.Proofs.Resource.Patterns
import GraphRest.Proofs.Endpoint.Place
import GraphRest.Proofs.Endpoint.Emitted
import GraphRest.Proofs.Endpoint.Collision
import GraphRest.Proofs.Endpoint.Operations
import GraphRest.Proofs.Conversion.Finished
import GraphRest.Proofs.Conversion.Representation
import GraphRest.Proofs.Endpoint.Origin
import GraphRest.Proofs.Conversion.Arguments
import GraphRest.Proofs.Conversion.Mapping
import GraphRest.Proofs.Conversion.Answers
import GraphRest.Proofs.Sdl.Names
import GraphRest.Proofs.Conversion.ComponentReferences
import GraphRest.Proofs.Endpoint.Schemas
import GraphRest.Proofs.Conversion.ReferentialIntegrity
import GraphRest.Proofs.Resource.Detection
import GraphRest.Proofs.Conversion.Properties
import GraphRest.Proofs.Conversion.Accounting
import GraphRest.Proofs.Conversion.Flattening
import GraphRest.Proofs.Naming.Plural
import GraphRest.Proofs.Conversion.Paths
import GraphRest.Proofs.Text.Case
import GraphRest.Proofs.Conversion.ResourceChanges
import GraphRest.Proofs.Conversion.Identifiers
import GraphRest.Proofs.Resource.FieldOrder
import GraphRest.Proofs.Endpoint.Annotations
import GraphRest.Proofs.Conversion.Deprecation
import GraphRest.Proofs.Endpoint.Taken
import GraphRest.Proofs.Conversion.DetectionSwitch
import GraphRest.Proofs.Document.Trees
import GraphRest.Proofs.Conversion.Bounds
import GraphRest.Proofs.Header.Keyword
import GraphRest.Proofs.Settings.Precedence
import GraphRest.Proofs.Conversion.Locality
import GraphRest.Proofs.Conversion.ReferencePaths
import GraphRest.Proofs.Conversion.AmbiguousTemplates
import GraphRest.Proofs.Command.FileSystem
import GraphRest.Proofs.Command.Run
import GraphRest.Proofs.Naming.CustomEndings
import GraphRest.Proofs.Naming.RegularEndings
import GraphRest.Proofs.Settings.SchemaSoundness
import GraphRest.Proofs.Conversion.Notices
import GraphRest.Proofs.Header.RoundTrip
import GraphRest.Proofs.Conversion.QueryStage
import GraphRest.Proofs.Conversion.Formats
import GraphRest.Proofs.Endpoint.Streams
import GraphRest.Proofs.Naming.Summary
import GraphRest.Proofs.Naming.Title
import GraphRest.Proofs.Options.Partial
