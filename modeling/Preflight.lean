import Preflight.Binding
import Preflight.Blueprint.Basic
import Preflight.Blueprint.Build
import Preflight.Blueprint.Draft
import Preflight.Check.LoopVariation
import Preflight.Check.QualifiedName
import Preflight.Check.SharedIdentity
import Preflight.Deployment.Ancestry
import Preflight.Deployment.Grouping
import Preflight.Deployment.Identity
import Preflight.Deployment.Scope
import Preflight.Diagnostic
import Preflight.Expr
import Preflight.Expr.Chain
import Preflight.Expr.Children
import Preflight.Expr.Dependencies
import Preflight.Expr.Free
import Preflight.Expr.Printer
import Preflight.Expr.Structure
import Preflight.Expr.Substitution
import Preflight.InPlace
import Preflight.Inspection
import Preflight.LineTable
import Preflight.NodeTable
import Preflight.OnePass.Building
import Preflight.OnePass.Rules
import Preflight.OnePass.Session
import Preflight.Options
import Preflight.Parser.Cursor
import Preflight.Parser.Expression
import Preflight.Program
import Preflight.Proofs.Binding
import Preflight.Proofs.Binding.Effect
import Preflight.Proofs.Binding.InPlace
import Preflight.Proofs.Blueprint.Acceptance
import Preflight.Proofs.Blueprint.Ancestry
import Preflight.Proofs.Blueprint.Bound
import Preflight.Proofs.Blueprint.Lexical
import Preflight.Proofs.Blueprint.Parents
import Preflight.Proofs.Blueprint.Written
import Preflight.Proofs.Check.Codes
import Preflight.Proofs.Check.LoopVariation
import Preflight.Proofs.Check.QualifiedName
import Preflight.Proofs.Check.ReportedTogether
import Preflight.Proofs.Check.SharedIdentity
import Preflight.Proofs.Check.SharedReferences
import Preflight.Proofs.Deployment.Grouping
import Preflight.Proofs.Deployment.Identity
import Preflight.Proofs.Ensures
import Preflight.Proofs.Expr.Alike
import Preflight.Proofs.Expr.Dependencies
import Preflight.Proofs.Expr.FreeNames
import Preflight.Proofs.Expr.Occurrences
import Preflight.Proofs.Expr.Places
import Preflight.Proofs.Expr.Readable
import Preflight.Proofs.Expr.References
import Preflight.Proofs.Expr.Relabelling
import Preflight.Proofs.Expr.Unrolling
import Preflight.Proofs.Inspection.Agreement
import Preflight.Proofs.Inspection.Growth
import Preflight.Proofs.Inspection.Pointing
import Preflight.Proofs.Inspection.Renumbering
import Preflight.Proofs.Inspection.Reports
import Preflight.Proofs.Inspection.Sink
import Preflight.Proofs.Layout.Covers
import Preflight.Proofs.Layout.Cursor
import Preflight.Proofs.Layout.Declarations
import Preflight.Proofs.Layout.Excerpt
import Preflight.Proofs.Layout.Expressions
import Preflight.Proofs.Layout.Leading
import Preflight.Proofs.Layout.LineTable
import Preflight.Proofs.Layout.Lines
import Preflight.Proofs.Layout.Operands
import Preflight.Proofs.Layout.OwnText
import Preflight.Proofs.Layout.Placing
import Preflight.Proofs.Layout.Regions
import Preflight.Proofs.Layout.Sound
import Preflight.Proofs.Layout.Writing
import Preflight.Proofs.Numbering
import Preflight.Proofs.OnePass.Building
import Preflight.Proofs.OnePass.Bytes
import Preflight.Proofs.OnePass.Expressions
import Preflight.Proofs.OnePass.Follows
import Preflight.Proofs.OnePass.Operands
import Preflight.Proofs.OnePass.Primaries
import Preflight.Proofs.OnePass.Safety
import Preflight.Proofs.OnePass.Scopes
import Preflight.Proofs.OnePass.Tokens
import Preflight.Proofs.OnePass.Trail
import Preflight.Proofs.Parser.Chains
import Preflight.Proofs.Parser.GoingOn
import Preflight.Proofs.Parser.GoingOnOperands
import Preflight.Proofs.Parser.GoingOnOperators
import Preflight.Proofs.Parser.Groups
import Preflight.Proofs.Parser.Literals
import Preflight.Proofs.Parser.Nodes
import Preflight.Proofs.Parser.Numbering
import Preflight.Proofs.Parser.Operators
import Preflight.Proofs.Parser.ParameterLists
import Preflight.Proofs.Parser.Reads
import Preflight.Proofs.Parser.Retrace
import Preflight.Proofs.Parser.RetraceOperands
import Preflight.Proofs.Parser.RetraceOperators
import Preflight.Proofs.Parser.RoundTrip
import Preflight.Proofs.Pieces
import Preflight.Proofs.Renumbering
import Preflight.Proofs.ResourceType
import Preflight.ResourceType
import Preflight.Source
import Preflight.Span
import Preflight.Symbol
import Preflight.Text.CaseTable
import Preflight.Text.Lowercase
import Preflight.Text.PrintTable
import Preflight.Text.Quoted
import Preflight.Text.Utf8
import Preflight.Text.WhiteSpace
import Preflight.TypeModel
