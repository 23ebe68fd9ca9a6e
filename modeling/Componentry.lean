import Componentry.Annotation
import Componentry.Assembly
import Componentry.Attempt
import Componentry.BuildInput
import Componentry.Closure
import Componentry.CommandLine
import Componentry.CommandLine.Arguments
import Componentry.CommandLine.Help
import Componentry.Component
import Componentry.Config
import Componentry.ConfigFile
import Componentry.Declaration
import Componentry.Diagnostic
import Componentry.Expansion
import Componentry.Expansion.Members
import Componentry.Expansion.Path
import Componentry.Expansion.Target
import Componentry.FileTree
import Componentry.Fragment
import Componentry.Generics
import Componentry.Invariant
import Componentry.Json.Cursor
import Componentry.Json.Decode
import Componentry.Json.Reader
import Componentry.Json.Shape
import Componentry.Json.Skip
import Componentry.Json.Value
import Componentry.Json.Writer
import Componentry.Main
import Componentry.Metadata
import Componentry.NameSet
import Componentry.Number.Decimal
import Componentry.Number.Double
import Componentry.Number.Shortest
import Componentry.OrderedMap
import Componentry.Path
import Componentry.Proofs.Annotation.Nesting
import Componentry.Proofs.Assembly
import Componentry.Proofs.Assembly.Bindings
import Componentry.Proofs.Assembly.Checks
import Componentry.Proofs.Assembly.Deprecations
import Componentry.Proofs.Assembly.Failures
import Componentry.Proofs.Assembly.Invariants
import Componentry.Proofs.Assembly.Reserved
import Componentry.Proofs.Assembly.Surface
import Componentry.Proofs.Attempt
import Componentry.Proofs.Attempt.Causes
import Componentry.Proofs.Attempt.Composition
import Componentry.Proofs.Attempt.Notices
import Componentry.Proofs.Closure.BreadthFirst
import Componentry.Proofs.Closure.Copies
import Componentry.Proofs.Closure.Failures
import Componentry.Proofs.Closure.Relocation
import Componentry.Proofs.Closure.SelfContained
import Componentry.Proofs.Closure.Spelling
import Componentry.Proofs.Codec
import Componentry.Proofs.CommandLine.Agreement
import Componentry.Proofs.Expansion.Agreement
import Componentry.Proofs.Expansion.Blocks
import Componentry.Proofs.Expansion.Cycles
import Componentry.Proofs.Expansion.Inlining
import Componentry.Proofs.Expansion.Layers
import Componentry.Proofs.Expansion.Search
import Componentry.Proofs.Expansion.Shape
import Componentry.Proofs.Expansion.Target
import Componentry.Proofs.Expansion.Termination
import Componentry.Proofs.Expansion.Unwinding
import Componentry.Proofs.Expansion.Visits
import Componentry.Proofs.FileTree.Contents
import Componentry.Proofs.FileTree.Detours
import Componentry.Proofs.FileTree.Following
import Componentry.Proofs.FileTree.Growth
import Componentry.Proofs.FileTree.Writing
import Componentry.Proofs.Fragment.Documentation
import Componentry.Proofs.Fragment.Exports
import Componentry.Proofs.Fragment.Layout
import Componentry.Proofs.Json.Codec
import Componentry.Proofs.Json.Numbers
import Componentry.Proofs.Json.Reading
import Componentry.Proofs.Metadata.Containment
import Componentry.Proofs.Metadata.Fields
import Componentry.Proofs.Metadata.Objects
import Componentry.Proofs.Metadata.RuntimeView
import Componentry.Proofs.Metadata.Tagged
import Componentry.Proofs.Metadata.Tags
import Componentry.Proofs.Metadata.Typedefs
import Componentry.Proofs.Path.Normal
import Componentry.Proofs.Resolution.Alternatives
import Componentry.Proofs.Resolution.Conditionals
import Componentry.Proofs.Resolution.Consistency
import Componentry.Proofs.Resolution.Deprecations
import Componentry.Proofs.Resolution.GroundUnions
import Componentry.Proofs.Resolution.MemberOrder
import Componentry.Proofs.Resolution.Outcome
import Componentry.Proofs.Resolution.Repetition
import Componentry.Proofs.Resolution.Reporting
import Componentry.Proofs.Resolution.Rules
import Componentry.Proofs.Resolution.Termination
import Componentry.Proofs.Session.Components
import Componentry.Proofs.Session.Failures
import Componentry.Proofs.Session.Modules
import Componentry.Proofs.Session.Outputs
import Componentry.Proofs.Statement.Exports
import Componentry.Proofs.Statement.Matches
import Componentry.Proofs.Statement.Merge
import Componentry.Proofs.Statement.Rewriting
import Componentry.Proofs.Statement.Shapes
import Componentry.Proofs.Statement.Strip
import Componentry.Proofs.Statement.Ways
import Componentry.Proofs.TypeExpr.Codec
import Componentry.Proofs.TypeExpr.NormalForm
import Componentry.Proofs.TypeExpr.Reading
import Componentry.Proofs.TypeExpr.StringLiteral
import Componentry.Proofs.Version.Grammar
import Componentry.Proofs.Version.Order
import Componentry.Resolution
import Componentry.Resolved
import Componentry.Session
import Componentry.Signature
import Componentry.Statement
import Componentry.Statement.Pattern
import Componentry.Text.Blank
import Componentry.Text.Lossy
import Componentry.Text.UpperCase
import Componentry.Text.Word
import Componentry.Toml.Reader
import Componentry.Toml.Table
import Componentry.TypeExpr.Basic
import Componentry.TypeExpr.Codec
import Componentry.TypeExpr.Print
import Componentry.TypeReport
import Componentry.Unseen
import Componentry.Version
import Componentry.WrapperChain
