import Preflight.Diagnostic
import Preflight.Expr.Dependencies
import Preflight.Program

/-! # Variation in loops

A looped declaration has to deploy something else in each iteration. The properties that tell the
iterations apart are looked at, as far as the type of the body declares them. -/

namespace Preflight
set_option autoImplicit false

inductive Quantifier where
  | any | all
deriving DecidableEq, Repr

def Quantifier.holds {α : Type} : Quantifier → (α → Bool) → List α → Bool
  | any, p, xs => xs.any p
  | all, p, xs => xs.all p

/-- Which properties tell iterations apart, and how many of their values have to be invariant for a
finding. -/
structure VariationRule where
  properties : List String
  quantifier : Quantifier
deriving DecidableEq, Repr

def VariationRule.resource : VariationRule := ⟨["name", "parent", "scope"], .any⟩

def VariationRule.module : VariationRule := ⟨["name", "scope"], .all⟩

def LoopHead.isInvariant (symbols : SymbolTable) (head : LoopHead) (e : Expr) : Bool :=
  e.isInvariant symbols head.item head.index

/-- The finding about a declaration that is a loop. Without any of the properties there is none. -/
def VariationRule.finding? (rule : VariationRule) (symbols : SymbolTable) (name : Ident)
    (type : TypeRef) (body : Body) : Option Diagnostic := do
  let head ← body.loopHead?
  let object ← type.bodyObject?
  let candidates := rule.properties.filter object.hasProperty
  let values := candidates.filterMap body.property?
  guard (values ≠ [] ∧ rule.quantifier.holds (head.isInvariant symbols) values)
  return .loopInvariant name.span head.item.name (head.index.map LocalVar.name) candidates

namespace Model

/-- Existing resources are passed over. -/
def resourceLoopInvariants (m : Model) : List Diagnostic :=
  (m.program.resources.filter (!·.existing)).filterMap fun r =>
    VariationRule.resource.finding? m.symbols r.name r.type r.body

def moduleLoopInvariants (m : Model) : List Diagnostic :=
  m.program.modules.filterMap fun d =>
    VariationRule.module.finding? m.symbols d.name d.type d.body

end Model

end Preflight
