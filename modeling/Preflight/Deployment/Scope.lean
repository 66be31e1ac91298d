import Preflight.Symbol

/-! # Deployment scopes

Where each resource and module is deployed. -/

namespace Preflight
set_option autoImplicit false

inductive ScopeKind where
  | tenant | managementGroup | subscription | resourceGroup
  | resource
deriving DecidableEq, Hashable, Repr

instance : ToString ScopeKind where
  toString
    | .tenant => "tenant"
    | .managementGroup => "managementGroup"
    | .subscription => "subscription"
    | .resourceGroup => "resourceGroup"
    | .resource => "resource"

/-- The scope of one declaration, and the resource instance it is deployed onto, if any. -/
structure Scope where
  kind : ScopeKind
  onto : Option SymbolId := none
deriving DecidableEq, Repr

def Scope.onResource (id : SymbolId) : Scope := { kind := .resource, onto := some id }

/-- The scopes of those declarations whose scope is known. -/
abbrev Scopes := Std.TreeMap SymbolId Scope

end Preflight
