import DataBinding.Binding.Argument
import DataBinding.Binding.Basic
import DataBinding.Binding.Declaration
import DataBinding.Binding.Format
import DataBinding.Binding.Mode
import DataBinding.Binding.Segment
import DataBinding.Config.Options
import DataBinding.Config.Reader
import DataBinding.Config.TypeDefs
import DataBinding.Digraph
import DataBinding.Distinct
import DataBinding.Document
import DataBinding.Export.Binding
import DataBinding.Export.Compiled
import DataBinding.Export.Expr
import DataBinding.Expr.Basic
import DataBinding.Expr.Key
import DataBinding.Expr.Tree
import DataBinding.Expr.Typing
import DataBinding.Fault
import DataBinding.Grammar.Access
import DataBinding.Grammar.Cursor
import DataBinding.Grammar.Expression
import DataBinding.Grammar.Primary
import DataBinding.Grammar.TypeName
import DataBinding.Greedy
import DataBinding.Metadata.Hierarchy
import DataBinding.Metadata.Lookup
import DataBinding.Metadata.Registry
import DataBinding.Metadata.TypeDef
import DataBinding.Metadata.TypeRef
import DataBinding.Metadata.WellKnown
import DataBinding.Observation.Dependents
import DataBinding.Observation.Notification
import DataBinding.Observation.Source
import DataBinding.Proofs.Binding.Nodes
import DataBinding.Proofs.Binding.Order
import DataBinding.Proofs.Binding.Segments
import DataBinding.Proofs.Binding.Value
import DataBinding.Proofs.Expr.Built
import DataBinding.Proofs.Expr.Evaluation
import DataBinding.Proofs.Expr.Formed
import DataBinding.Proofs.Expr.Keys
import DataBinding.Proofs.Expr.Layout
import DataBinding.Proofs.Expr.Meaning
import DataBinding.Proofs.Expr.Pieces
import DataBinding.Proofs.Expr.Shape
import DataBinding.Proofs.Expr.Wording
import DataBinding.Proofs.Grammar.Alignment
import DataBinding.Proofs.Grammar.Endings
import DataBinding.Proofs.Grammar.Formed
import DataBinding.Proofs.Grammar.Invariants
import DataBinding.Proofs.Grammar.Keys
import DataBinding.Proofs.Grammar.Plain
import DataBinding.Proofs.Grammar.Readings
import DataBinding.Proofs.Grammar.Typing
import DataBinding.Proofs.Membership
import DataBinding.Proofs.Metadata.Assignability
import DataBinding.Proofs.Metadata.Lookup
import DataBinding.Proofs.Metadata.Names
import DataBinding.Proofs.Observation.Growth
import DataBinding.Proofs.Observation.Linking
import DataBinding.Proofs.Observation.Nesting
import DataBinding.Proofs.Observation.Sources
import DataBinding.Proofs.Reachability
import DataBinding.Proofs.Scope.Acceptance
import DataBinding.Proofs.Scope.Attempts
import DataBinding.Proofs.Scope.Capture
import DataBinding.Proofs.Scope.Coverage
import DataBinding.Proofs.Scope.Execution
import DataBinding.Proofs.Scope.Faithfulness
import DataBinding.Proofs.Scope.References
import DataBinding.Proofs.Scope.Tasks
import DataBinding.Proofs.Scope.Types
import DataBinding.Proofs.Sharing.Completeness
import DataBinding.Proofs.Sharing.Evaluation
import DataBinding.Proofs.Sharing.Hoisting
import DataBinding.Proofs.Sharing.Inlining
import DataBinding.Proofs.Sharing.Preservation
import DataBinding.Proofs.Text.Names
import DataBinding.Proofs.Text.Paths
import DataBinding.Proofs.Text.Quoted
import DataBinding.Proofs.Token.Endings
import DataBinding.Proofs.Token.Words
import DataBinding.Proofs.Update.Method
import DataBinding.Proofs.Update.Restored
import DataBinding.Scope
import DataBinding.Scope.Compiled
import DataBinding.Sharing
import DataBinding.Sorted
import DataBinding.Text.Alphabetic
import DataBinding.Text.Blank
import DataBinding.Text.Extender
import DataBinding.Text.Numeral
import DataBinding.Text.Printable
import DataBinding.Text.Quoted
import DataBinding.Text.Ranges
import DataBinding.Text.Slice
import DataBinding.Token
import DataBinding.Token.Lexer
import DataBinding.Token.StringLiteral
import DataBinding.Update.Method
import DataBinding.Update.Selection
import DataBinding.WriteBack
import DataBinding.Proofs.Sharing.Termination
import DataBinding.Proofs.Observation.Partition
import DataBinding.Proofs.Observation.Turns
import DataBinding.Proofs.Observation.Dependents
import DataBinding.Proofs.Update.Selection
import DataBinding.Proofs.WriteBack
import DataBinding.Proofs.Binding.Scan
import DataBinding.Proofs.Binding.DataType
import DataBinding.Proofs.Binding.Composition
import DataBinding.Proofs.Metadata.Shadowing
import DataBinding.Proofs.Text.Offsets
import DataBinding.Proofs.Token.Places
import DataBinding.Proofs.Grammar.Faults
import DataBinding.Proofs.Binding.Boundaries
import DataBinding.Proofs.Binding.Faults
import DataBinding.Proofs.Grammar.StaticAccess
import DataBinding.Proofs.Metadata.Walks
import DataBinding.Proofs.Metadata.Conversions
import DataBinding.Proofs.Token.Coverage
import DataBinding.Proofs.Observation.Trees
import DataBinding.Proofs.Observation.Forcing
import DataBinding.Proofs.Token.Literals
import DataBinding.Proofs.Traversal
import DataBinding.Proofs.Text.Balanced
import DataBinding.Proofs.Expr.Templates
import DataBinding.Proofs.Grammar.Formats
