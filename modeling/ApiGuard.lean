import ApiGuard.Analysis
import ApiGuard.Body
import ApiGuard.Bundle
import ApiGuard.Bundle.Document
import ApiGuard.Bundle.Manifest
import ApiGuard.CallGraph.Basic
import ApiGuard.CallGraph.Dot
import ApiGuard.CallGraph.Guards
import ApiGuard.CallGraph.Trace
import ApiGuard.Classification
import ApiGuard.Cli.Command
import ApiGuard.Cli.Directory
import ApiGuard.Cli.Options
import ApiGuard.Cli.Run
import ApiGuard.Condition
import ApiGuard.Decimal
import ApiGuard.Guard.Calls
import ApiGuard.Guard.Taint
import ApiGuard.Guard.Walk
import ApiGuard.Hierarchy
import ApiGuard.Json.Basic
import ApiGuard.Json.Reader
import ApiGuard.Json.Writer
import ApiGuard.Libraries
import ApiGuard.Lifetime
import ApiGuard.Lifetime.Reader
import ApiGuard.Lifetime.Table
import ApiGuard.Main
import ApiGuard.Order.Relation
import ApiGuard.Order.SortedMap
import ApiGuard.Order.SortedSet
import ApiGuard.Pattern
import ApiGuard.PatternEngine
import ApiGuard.Regex
import ApiGuard.Regex.Engine
import ApiGuard.Regex.Form
import ApiGuard.Regex.Reader
import ApiGuard.Regex.Size
import ApiGuard.Report
import ApiGuard.Report.Text
import ApiGuard.Search
import ApiGuard.Signature
import ApiGuard.Statement
import ApiGuard.Statement.Json
import ApiGuard.Text
import ApiGuard.Text.CaseFold
import ApiGuard.Text.CharSet
import ApiGuard.Text.Scan
import ApiGuard.Text.Utf8
import ApiGuard.Usage
import ApiGuard.Proofs.Body.Flow
import ApiGuard.Proofs.Guard.Exploration
import ApiGuard.Proofs.Guard.Chains
import ApiGuard.Proofs.Guard.Recursion
import ApiGuard.Proofs.CallGraph.Invariant
import ApiGuard.Proofs.CallGraph.View
import ApiGuard.Proofs.Guard.Coverage
import ApiGuard.Proofs.Guard.Paths
import ApiGuard.Proofs.Guard.Monotone
import ApiGuard.Proofs.CallGraph.Indexes
import ApiGuard.Proofs.CallGraph.Constructors
import ApiGuard.Proofs.CallGraph.Callers
import ApiGuard.Proofs.Body.Entries
import ApiGuard.Proofs.Guard.Overrides
import ApiGuard.Proofs.Classification.Protection
import ApiGuard.Proofs.Analysis.Uses
import ApiGuard.Proofs.Analysis.Runs
import ApiGuard.Proofs.Analysis.Order
import ApiGuard.Proofs.Analysis.Agreement
import ApiGuard.Proofs.History
import ApiGuard.Proofs.Hierarchy.Links
import ApiGuard.Proofs.Hierarchy.Ancestry
import ApiGuard.Proofs.Classification.Buckets
import ApiGuard.Proofs.Analysis.Operations
import ApiGuard.Proofs.Analysis.Findings
import ApiGuard.Proofs.CallGraph.Growth
import ApiGuard.Proofs.Classification.Growth
import ApiGuard.Proofs.Guard.Markers
import ApiGuard.Proofs.Analysis.Markers
import ApiGuard.Proofs.Hierarchy.Inherited
import ApiGuard.Proofs.Analysis.Index
import ApiGuard.Proofs.Json.Plain
import ApiGuard.Proofs.Lifetime.Entries
import ApiGuard.Proofs.Lifetime.Texts
import ApiGuard.Proofs.Statement.Encoding
import ApiGuard.Proofs.Traversal
import ApiGuard.Proofs.Body.Labels
import ApiGuard.Proofs.Body.Faults
import ApiGuard.Proofs.Body.Graph
import ApiGuard.Proofs.Guard.Renaming
import ApiGuard.Proofs.Hierarchy.Declarations
import ApiGuard.Proofs.Bundle.Loading
import ApiGuard.Proofs.Bundle.Classes
import ApiGuard.Proofs.Hierarchy.Order
import ApiGuard.Proofs.Hierarchy.Closing
import ApiGuard.Proofs.CallGraph.Unrolling
import ApiGuard.Proofs.Classification.Windows
import ApiGuard.Proofs.Signature.Grammar
import ApiGuard.Proofs.Signature.Printing
import ApiGuard.Proofs.Signature.Lens
import ApiGuard.Proofs.Lifetime.Grammar
import ApiGuard.Proofs.Lifetime.Insertions
import ApiGuard.Proofs.CallGraph.Classes
import ApiGuard.Proofs.Libraries
import ApiGuard.Proofs.CallGraph.Quotation
import ApiGuard.Proofs.Analysis.Reading
import ApiGuard.Proofs.Condition
