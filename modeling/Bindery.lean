import Bindery.ClassName
import Bindery.Command.Arguments
import Bindery.Command.Basic
import Bindery.Command.Options
import Bindery.Command.Program
import Bindery.Command.Run
import Bindery.Declaration.Basic
import Bindery.Declaration.Format
import Bindery.Declaration.Sample
import Bindery.Digest.Sha256
import Bindery.Disk.Changes
import Bindery.Disk.Path
import Bindery.Disk.Tree
import Bindery.DomainFault
import Bindery.Emission.FileStore
import Bindery.Emission.Manifest
import Bindery.Emission.Memory
import Bindery.Emission.Unit
import Bindery.Fault
import Bindery.Feature
import Bindery.Generators.Appcomponent
import Bindery.Generators.Fragment
import Bindery.Generators.ViewModel
import Bindery.Generators.Work
import Bindery.Json.Decode
import Bindery.Json.Draft
import Bindery.Json.Magnitude
import Bindery.Json.Reader
import Bindery.Json.Value
import Bindery.Log.FieldTest
import Bindery.Log.Filter
import Bindery.Log.Note
import Bindery.Log.Setup
import Bindery.Main
import Bindery.Naming.Derived
import Bindery.Naming.Registry
import Bindery.Number.Calendar
import Bindery.Number.Double
import Bindery.Number.Power
import Bindery.OrderedMap
import Bindery.Proofs.Creation.Accounting
import Bindery.Proofs.Creation.Contributions
import Bindery.Proofs.Creation.Files
import Bindery.Proofs.Creation.Workers
import Bindery.Proofs.Declaration.Arguments
import Bindery.Proofs.Declaration.Format
import Bindery.Proofs.Disk.Operations
import Bindery.Proofs.Disk.Parents
import Bindery.Proofs.Disk.Parts
import Bindery.Proofs.Disk.Paths
import Bindery.Proofs.Disk.Routes
import Bindery.Proofs.Disk.Trees
import Bindery.Proofs.Emission.Agreement
import Bindery.Proofs.Emission.DryRun
import Bindery.Proofs.Emission.Ending
import Bindery.Proofs.Emission.Manifest
import Bindery.Proofs.Emission.Obstruction
import Bindery.Proofs.Emission.Places
import Bindery.Proofs.Emission.Refusal
import Bindery.Proofs.Emission.Remains
import Bindery.Proofs.Emission.Removal
import Bindery.Proofs.Emission.Replacing
import Bindery.Proofs.Emission.Sequences
import Bindery.Proofs.Emission.Sweeping
import Bindery.Proofs.Emission.Writing
import Bindery.Proofs.Integration.Bids
import Bindery.Proofs.Integration.Duplicates
import Bindery.Proofs.Integration.Resolving
import Bindery.Proofs.Integration.Rules
import Bindery.Proofs.Integration.Selection
import Bindery.Proofs.Integration.Sharing
import Bindery.Proofs.Integration.Targets
import Bindery.Proofs.Integration.Units
import Bindery.Proofs.Json.Decoding
import Bindery.Proofs.Json.Grammar
import Bindery.Proofs.Json.Leaves
import Bindery.Proofs.Json.Texts
import Bindery.Proofs.Json.Yields
import Bindery.Proofs.Naming.Derivations
import Bindery.Proofs.Naming.Derived
import Bindery.Proofs.Naming.Dotted
import Bindery.Proofs.Naming.Parsing
import Bindery.Proofs.Naming.Reading
import Bindery.Proofs.OrderedMap
import Bindery.Proofs.Results
import Bindery.Proofs.Run.Account
import Bindery.Proofs.Run.Attribution
import Bindery.Proofs.Run.Books
import Bindery.Proofs.Run.Clashes
import Bindery.Proofs.Run.Composition
import Bindery.Proofs.Run.Deliveries
import Bindery.Proofs.Run.Due
import Bindery.Proofs.Run.Emitting
import Bindery.Proofs.Run.FailFast
import Bindery.Proofs.Run.Failure
import Bindery.Proofs.Run.Faults
import Bindery.Proofs.Run.Generators
import Bindery.Proofs.Run.Independence
import Bindery.Proofs.Run.Irrelevance
import Bindery.Proofs.Run.Ledger
import Bindery.Proofs.Run.Outcome
import Bindery.Proofs.Run.Pipeline
import Bindery.Proofs.Run.Plan
import Bindery.Proofs.Run.Records
import Bindery.Proofs.Run.Recording
import Bindery.Proofs.Run.Sources
import Bindery.Proofs.Run.Stopping
import Bindery.Proofs.Run.Turns
import Bindery.Proofs.Run.Watched
import Bindery.Proofs.Scope.Agreement
import Bindery.Proofs.Scope.Ancestors
import Bindery.Proofs.Scope.Configured
import Bindery.Proofs.Scope.Inheritance
import Bindery.Proofs.Scope.Nearest
import Bindery.Proofs.Scope.Outline
import Bindery.Proofs.Scope.ParentChain
import Bindery.Proofs.Scope.Reading
import Bindery.Proofs.Scope.Resolution
import Bindery.Proofs.Scope.Validation
import Bindery.Proofs.Source.Spelling
import Bindery.Proofs.Source.TypeNames
import Bindery.Proofs.Source.Unpackaged
import Bindery.Proofs.Symbols.Irrelevance
import Bindery.Proofs.Symbols.Loaded
import Bindery.Proofs.Symbols.Loading
import Bindery.Proofs.Symbols.Nearness
import Bindery.Proofs.Symbols.Snapshots
import Bindery.Proofs.Symbols.Supertypes
import Bindery.Proofs.Symbols.Table
import Bindery.Proofs.ViewModel.ChildScopes
import Bindery.Proofs.ViewModel.References
import Bindery.Run.Contribution
import Bindery.Run.Generate
import Bindery.Run.Generator
import Bindery.Run.Integration
import Bindery.Run.Journal
import Bindery.Run.Pipeline
import Bindery.Run.Report
import Bindery.Run.Session
import Bindery.Scope.Configuration
import Bindery.Scope.Graph
import Bindery.Scope.Outline
import Bindery.Scope.Resolution
import Bindery.Settings.Basic
import Bindery.Settings.Environment
import Bindery.Settings.Load
import Bindery.Settings.Loose
import Bindery.Settings.Place
import Bindery.Source.Format
import Bindery.Source.Imports
import Bindery.Source.Printer
import Bindery.Source.Tree
import Bindery.Symbols.Load
import Bindery.Symbols.Snapshot
import Bindery.Symbols.Table
import Bindery.Text.Blank
import Bindery.Text.Letter
import Bindery.Text.Lossy
import Bindery.Text.Pattern
import Bindery.Text.Pattern.Reader
import Bindery.Text.Quoted
import Bindery.Text.Ranges
import Bindery.Toml.Reader
import Bindery.Toml.Scalar
import Bindery.Toml.Tree
import Bindery.WellKnown
import Bindery.Yaml.Block
import Bindery.Yaml.Cursor
import Bindery.Yaml.Document
import Bindery.Yaml.Label
import Bindery.Yaml.Node
import Bindery.Yaml.Plain
import Bindery.Yaml.Quoted
import Bindery.Yaml.Scalar
import Bindery.Yaml.Token
import Bindery.Yaml.Token.Layout
import Bindery.Yaml.Token.Lexer
import Bindery.Proofs.Source.Literals
import Bindery.Proofs.Source.Collecting
import Bindery.Proofs.Source.Comments
import Bindery.Proofs.ViewModel.Capture
