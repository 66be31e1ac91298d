import Preflight.Diagnostic
import Preflight.Program

/-! # Qualified names

The name of a top-level resource has one part for each segment of its type, divided by slashes.
A child takes its qualifiers from its ancestors and has none in its name. -/

namespace Preflight
set_option autoImplicit false

namespace Model

/-- The finding about the name of a resource of the given type. Of a name with holes, only that of
a child is looked at. -/
def qualifierFinding? (m : Model) (r : ResourceDecl) : Option Diagnostic := do
  let type ← r.type.resourceType?
  let value ← r.body.property? "name"
  let .string _ segments holes := value | none
  if m.ancestors.ancestors r.symbol ≠ [] then
    guard (segments.any fun segment => '/' ∈ segment.toList)
    return .qualifiedChild value.span
  else
    let literal ← (Expr.string value.node segments holes).literal?
    let expected := type.types.length - 1
    guard (literal.toList.count '/' ≠ expected)
    return .qualifierCount value.span expected

/-- Existing resources are looked at too. -/
def incorrectQualifiers (m : Model) : List Diagnostic :=
  m.program.resources.filterMap m.qualifierFinding?

end Model

end Preflight
