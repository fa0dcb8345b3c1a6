import DeclOrder.FileTree
import DeclOrder.Main
import DeclOrder.Proofs.Order.Reachability
import DeclOrder.Proofs.Order.Reference
import DeclOrder.Proofs.Order.Repair
import DeclOrder.Proofs.Order.Unsettled
import DeclOrder.Proofs.Order.Settling
import DeclOrder.Proofs.Order.Components
import DeclOrder.Proofs.Order.Scheduling
import DeclOrder.Proofs.Text.Ends
import DeclOrder.Proofs.Text.Lines
import DeclOrder.Proofs.Text.Words
import DeclOrder.Proofs.Text.Cutting
import DeclOrder.Proofs.Text.Substitution
import DeclOrder.Proofs.Declaration
import DeclOrder.Proofs.Source
import DeclOrder.Proofs.RoundTrip
import DeclOrder.Proofs.VersionConstraint
import DeclOrder.Proofs.Duplicate
import DeclOrder.Proofs.Stability
import DeclOrder.Proofs.Renaming
import DeclOrder.Proofs.RenamedLines
import DeclOrder.Proofs.Mention
import DeclOrder.Proofs.Resolution
import DeclOrder.Proofs.Quotient
import DeclOrder.Proofs.ForwardStatements
import DeclOrder.Proofs.Processing
import DeclOrder.Proofs.FixedPoint
import DeclOrder.Proofs.Preservation
import DeclOrder.Proofs.Order.Front
import DeclOrder.Proofs.Order.Precedence
import DeclOrder.Proofs.ForwardCycles
import DeclOrder.Proofs.Removal
import DeclOrder.Proofs.Course
import DeclOrder.Proofs.Guard
import DeclOrder.Proofs.Preview
import DeclOrder.Proofs.Independence
import DeclOrder.Proofs.Observation
import DeclOrder.Proofs.Arguments
import DeclOrder.Proofs.Check
import DeclOrder.Proofs.WholeWords
import DeclOrder.Proofs.Annotation
import DeclOrder.Proofs.RawString
import DeclOrder.Proofs.Order.Passes
import DeclOrder.Proofs.Order.Turns
import DeclOrder.Proofs.Order.Dependence
import DeclOrder.Proofs.Inheritance
import DeclOrder.Proofs.OptionalUnion
import DeclOrder.Proofs.TypeExpression
import DeclOrder.Proofs.Field
import DeclOrder.Proofs.Path.Steps
import DeclOrder.Proofs.Path.Relative
import DeclOrder.Proofs.FileTree
import DeclOrder.Proofs.Glob
import DeclOrder.Proofs.Scan
import DeclOrder.Proofs.Listing
import DeclOrder.Proofs.Invariant
import DeclOrder.Proofs.Timestamp
import DeclOrder.Proofs.Exchange
import DeclOrder.Proofs.Accounting
import DeclOrder.Proofs.Order.Numbering
import DeclOrder.Proofs.Segments
