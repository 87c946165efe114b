import AbcBuild.Text.Path
import AbcBuild.Text.Blank
import AbcBuild.Text.Lines
import AbcBuild.Text.Utf8
import AbcBuild.Text.Quoted
import AbcBuild.Text.Order
import AbcBuild.Number.Shortest
import AbcBuild.Table
import AbcBuild.Name.Builtin
import AbcBuild.Config
import AbcBuild.Source
import AbcBuild.Class.Hierarchy
import AbcBuild.Abc.Encode
import AbcBuild.Abc.Decode
import AbcBuild.Abc.Builder
import AbcBuild.Program.Resolve
import AbcBuild.Analysis.Constants
import AbcBuild.Analysis.Dependencies
import AbcBuild.Analysis.Publication
import AbcBuild.Analysis.Merge
import AbcBuild.Properties
import AbcBuild.Graph.Components
import AbcBuild.Schedule
import AbcBuild.Compilation
import AbcBuild.Main
import AbcBuild.Proofs.Format
import AbcBuild.Proofs.CleanBuild
import AbcBuild.Proofs.InheritanceOrder
import AbcBuild.Proofs.Account
import AbcBuild.Proofs.Resolution
import AbcBuild.Proofs.BuiltProgram
import AbcBuild.Proofs.InheritedClasses
import AbcBuild.Proofs.Reuse
import AbcBuild.Proofs.Styles
import AbcBuild.Proofs.Records
import AbcBuild.Proofs.Process
import AbcBuild.Proofs.Isolation
import AbcBuild.Proofs.Supertypes
import AbcBuild.Proofs.Bindings
import AbcBuild.Proofs.Unbinding
import AbcBuild.Proofs.Bundles
import AbcBuild.Proofs.Unresolved
import AbcBuild.Proofs.Stripped
import AbcBuild.Proofs.Initializers
import AbcBuild.Proofs.Descriptors
import AbcBuild.Proofs.Merging
import AbcBuild.Proofs.TakenOnce
import AbcBuild.Proofs.Lineage
import AbcBuild.Proofs.Interfaces
import AbcBuild.Proofs.Subclasses
import AbcBuild.Proofs.StyleMerging
import AbcBuild.Proofs.ResolvedProgram
import AbcBuild.Proofs.BuiltBlocks
import AbcBuild.Proofs.NameTexts
import AbcBuild.Proofs.WrittenProperties
import AbcBuild.Proofs.Visibility
import AbcBuild.Proofs.Outputs
import AbcBuild.Proofs.Nesting
import AbcBuild.Proofs.Streams
import AbcBuild.Proofs.Templates
