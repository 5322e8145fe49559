import SiteCompiler.ArtifactStore
import SiteCompiler.BaseUrl
import SiteCompiler.CommandLine.Arguments
import SiteCompiler.CommandLine.Basic
import SiteCompiler.Compilation
import SiteCompiler.Config
import SiteCompiler.Decimal.Shortest
import SiteCompiler.Dialect
import SiteCompiler.Digest
import SiteCompiler.Discovery
import SiteCompiler.Disk
import SiteCompiler.Domain.Basic
import SiteCompiler.Domain.Direction
import SiteCompiler.Domain.Joining
import SiteCompiler.Domain.Mapping
import SiteCompiler.Domain.Punycode
import SiteCompiler.Environment
import SiteCompiler.FilePath
import SiteCompiler.Graph.Basic
import SiteCompiler.Graph.Run
import SiteCompiler.HashSlot
import SiteCompiler.ImportMap
import SiteCompiler.Json.Basic
import SiteCompiler.Json.Document
import SiteCompiler.Json.Printer
import SiteCompiler.Json.Reader
import SiteCompiler.Linkage
import SiteCompiler.Main
import SiteCompiler.Module
import SiteCompiler.ModuleId
import SiteCompiler.Network
import SiteCompiler.PageTable
import SiteCompiler.Proofs.ArtifactStore
import SiteCompiler.Proofs.BaseUrl
import SiteCompiler.Proofs.Compilation
import SiteCompiler.Proofs.Digest
import SiteCompiler.Proofs.Discovery
import SiteCompiler.Proofs.Disk
import SiteCompiler.Proofs.DiskTree
import SiteCompiler.Proofs.Environment
import SiteCompiler.Proofs.FoundModules
import SiteCompiler.Proofs.Graph.Addresses
import SiteCompiler.Proofs.Graph.Artifacts
import SiteCompiler.Proofs.Graph.Atomicity
import SiteCompiler.Proofs.Graph.Calls
import SiteCompiler.Proofs.Graph.Clean
import SiteCompiler.Proofs.Graph.Closure
import SiteCompiler.Proofs.Graph.Coherence
import SiteCompiler.Proofs.Graph.Cycles
import SiteCompiler.Proofs.Graph.Damage
import SiteCompiler.Proofs.Graph.Deferral
import SiteCompiler.Proofs.Graph.Enrolled
import SiteCompiler.Proofs.Graph.FileIds
import SiteCompiler.Proofs.Graph.History
import SiteCompiler.Proofs.Graph.IdForms
import SiteCompiler.Proofs.Graph.Idle
import SiteCompiler.Proofs.Graph.Incremental
import SiteCompiler.Proofs.Graph.KnownIds
import SiteCompiler.Proofs.Graph.Mirroring
import SiteCompiler.Proofs.Graph.OutputNames
import SiteCompiler.Proofs.Graph.Progress
import SiteCompiler.Proofs.Graph.Propagation
import SiteCompiler.Proofs.Graph.Provenance
import SiteCompiler.Proofs.Graph.Recorded
import SiteCompiler.Proofs.Graph.Recovery
import SiteCompiler.Proofs.Graph.Reloading
import SiteCompiler.Proofs.Graph.Relocation
import SiteCompiler.Proofs.Graph.Renewal
import SiteCompiler.Proofs.Graph.Reopening
import SiteCompiler.Proofs.Graph.Repetition
import SiteCompiler.Proofs.Graph.ResolvedIds
import SiteCompiler.Proofs.Graph.Reuse
import SiteCompiler.Proofs.Graph.Sources
import SiteCompiler.Proofs.Graph.Traversal
import SiteCompiler.Proofs.Graph.Vendoring
import SiteCompiler.Proofs.Graph.WarmStart
import SiteCompiler.Proofs.Graph.World
import SiteCompiler.Proofs.Graph.Yields
import SiteCompiler.Proofs.HashSlot
import SiteCompiler.Proofs.Html.Tokens
import SiteCompiler.Proofs.ImportMap
import SiteCompiler.Proofs.Interruption
import SiteCompiler.Proofs.Json.Members
import SiteCompiler.Proofs.Json.Reading
import SiteCompiler.Proofs.Json.Truncation
import SiteCompiler.Proofs.Json.Values
import SiteCompiler.Proofs.Linkage
import SiteCompiler.Proofs.Linking
import SiteCompiler.Proofs.LocalPath
import SiteCompiler.Proofs.ModuleId
import SiteCompiler.Proofs.PageTable
import SiteCompiler.Proofs.Record
import SiteCompiler.Proofs.Redirection
import SiteCompiler.Proofs.Refilling
import SiteCompiler.Proofs.Route
import SiteCompiler.Proofs.Shell.Data
import SiteCompiler.Proofs.Shell.Elements
import SiteCompiler.Proofs.Site.Building
import SiteCompiler.Proofs.Site.Containment
import SiteCompiler.Proofs.Site.Dependents
import SiteCompiler.Proofs.Site.Execution
import SiteCompiler.Proofs.Site.Links
import SiteCompiler.Proofs.Site.Publishing
import SiteCompiler.Proofs.Site.Watching
import SiteCompiler.Proofs.Site.Working
import SiteCompiler.Proofs.SlotFilling
import SiteCompiler.Proofs.Source
import SiteCompiler.Proofs.SourceTree
import SiteCompiler.Proofs.Specifier
import SiteCompiler.Proofs.StoredRecord
import SiteCompiler.Proofs.Text.Cutting
import SiteCompiler.Proofs.Text.Utf8
import SiteCompiler.Proofs.Url.Parser
import SiteCompiler.Proofs.Url.Path
import SiteCompiler.Proofs.VendoredStem
import SiteCompiler.Route
import SiteCompiler.Script.Arrows
import SiteCompiler.Script.Chains
import SiteCompiler.Script.Classes
import SiteCompiler.Script.Comment
import SiteCompiler.Script.Constants
import SiteCompiler.Script.Creation
import SiteCompiler.Script.Declarations
import SiteCompiler.Script.Elements
import SiteCompiler.Script.Elision
import SiteCompiler.Script.Entities
import SiteCompiler.Script.Enumerations
import SiteCompiler.Script.Expressions
import SiteCompiler.Script.Functions
import SiteCompiler.Script.Gap
import SiteCompiler.Script.Grammar
import SiteCompiler.Script.Level
import SiteCompiler.Script.Lowering
import SiteCompiler.Script.ModuleItems
import SiteCompiler.Script.Names
import SiteCompiler.Script.Namespaces
import SiteCompiler.Script.Numeral
import SiteCompiler.Script.Patterns
import SiteCompiler.Script.Pen
import SiteCompiler.Script.Pieces
import SiteCompiler.Script.Points
import SiteCompiler.Script.Printer
import SiteCompiler.Script.Program
import SiteCompiler.Script.Reader
import SiteCompiler.Script.Statements
import SiteCompiler.Script.Syntax
import SiteCompiler.Script.Template
import SiteCompiler.Script.Token
import SiteCompiler.Script.Types
import SiteCompiler.Shell
import SiteCompiler.Site.Basic
import SiteCompiler.Site.Build
import SiteCompiler.Site.Change
import SiteCompiler.Site.Page
import SiteCompiler.Source
import SiteCompiler.Text.Category
import SiteCompiler.Text.CodePoints
import SiteCompiler.Text.Composition
import SiteCompiler.Text.Cutting
import SiteCompiler.Text.Letter
import SiteCompiler.Text.Markup
import SiteCompiler.Text.Percent
import SiteCompiler.Text.Utf8
import SiteCompiler.Url.Basic
import SiteCompiler.Url.Host
import SiteCompiler.Url.Parser
import SiteCompiler.Url.Path
