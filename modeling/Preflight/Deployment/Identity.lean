import Preflight.Expr.Structure
import Preflight.Program

/-! # Deployment identities

What makes two resources, or two modules, the same thing once deployed. Names are compared by
structure, since loops are not unrolled; resource types ignore the case of ASCII letters.
Declarations without a name in the form of a string have no identity. -/

namespace Preflight
set_option autoImplicit false

structure ResourceIdentity where
  symbol : SymbolId
  name : String
  /-- The resource that it is deployed onto or belongs to. -/
  parent : Option SymbolId
  fullyQualifiedType : String
  nameValue : Expr

structure ModuleIdentity where
  symbol : SymbolId
  name : String
  scope : ScopeKind
  /-- The arguments of the call that gives the scope, as in `resourceGroup('rg')`. -/
  scopeArgs : Option (List Expr)
  nameValue : Expr

def asciiLowercase (text : String) : String := text.map Char.toLower

namespace ResourceIdentity

/-- Symbolic names take no part. -/
def same (a b : ResourceIdentity) : Bool :=
  a.parent == b.parent &&
    asciiLowercase a.fullyQualifiedType == asciiLowercase b.fullyQualifiedType &&
    a.nameValue.alike b.nameValue

def digest (a : ResourceIdentity) : List Mark :=
  .id (a.parent.map (·.number)) :: .text (asciiLowercase a.fullyQualifiedType) ::
    a.nameValue.digest

instance : BEq ResourceIdentity := ⟨same⟩

instance : Hashable ResourceIdentity := ⟨fun a => hash a.digest⟩

end ResourceIdentity

namespace ModuleIdentity

/-- Scope arguments are compared one by one, or are absent on both sides. -/
def alikeScopes : Option (List Expr) → Option (List Expr) → Bool
  | none, none => true
  | some xs, some ys => Expr.alikeAll xs ys
  | _, _ => false

/-- Symbolic names take no part. -/
def same (a b : ModuleIdentity) : Bool :=
  a.scope == b.scope && alikeScopes a.scopeArgs b.scopeArgs && a.nameValue.alike b.nameValue

/-- A count that no list has stands for absent arguments. -/
def digestScope : Option (List Expr) → List Mark
  | none => [.count (UInt64.size - 1)]
  | some args => .count args.length :: Expr.digestAll args

def digest (a : ModuleIdentity) : List Mark :=
  .node a.scope.ctorIdx :: (digestScope a.scopeArgs ++ a.nameValue.digest)

instance : BEq ModuleIdentity := ⟨same⟩

instance : Hashable ModuleIdentity := ⟨fun a => hash a.digest⟩

end ModuleIdentity

/-- The name that a declaration is deployed under, if it is a string. -/
def Body.stringName? (body : Body) : Option Expr := (body.property? "name").filter Expr.isString

namespace Model

/-- The resource that a resource is deployed onto, if its scope names one, else its nearest
ancestor. -/
def deploymentParent? (m : Model) (scopes : Scopes) (resource : SymbolId) : Option SymbolId :=
  let onto := (scopes[resource]?.bind (·.onto)).filter fun id =>
    (m.symbols.get? id).any (·.kind == .resource)
  onto <|> (m.ancestors.nearest? resource).map (·.resource)

/-- An existing resource is not deployed and has no identity. -/
def resourceIdentity? (m : Model) (scopes : Scopes) (r : ResourceDecl) :
    Option ResourceIdentity := do
  guard !r.existing
  let type ← r.type.resourceType?
  let nameValue ← r.body.stringName?
  return {
    symbol := r.symbol
    name := r.name.name
    parent := m.deploymentParent? scopes r.symbol
    fullyQualifiedType := type.fullyQualified
    nameValue }

def scopeArgs? (body : Body) : Option (List Expr) :=
  match body.property? "scope" with
  | some (.call _ _ _ args) => some args
  | _ => none

/-- A module whose scope is not known has no identity. -/
def moduleIdentity? (scopes : Scopes) (d : ModuleDecl) : Option ModuleIdentity := do
  let scope ← scopes[d.symbol]?
  let nameValue ← d.body.stringName?
  return {
    symbol := d.symbol
    name := d.name.name
    scope := scope.kind
    scopeArgs := scopeArgs? d.body
    nameValue }

def resourceIdentities (m : Model) (scopes : Scopes) : List ResourceIdentity :=
  m.program.resources.filterMap (m.resourceIdentity? scopes)

def moduleIdentities (m : Model) (scopes : Scopes) : List ModuleIdentity :=
  m.program.modules.filterMap (moduleIdentity? scopes)

end Model

end Preflight
