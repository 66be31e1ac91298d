import Preflight.Deployment.Ancestry
import Preflight.Deployment.Scope
import Preflight.TypeModel

/-! # Programs

A bound program: its declarations, and what is known beside the tree about symbols, ancestors and
deployment scopes. -/

namespace Preflight
set_option autoImplicit false

structure Ident where
  span : Span
  name : String
deriving DecidableEq, Repr

/-- `for item in collection`, with the span of the whole loop. -/
structure LoopHead where
  span : Span
  item : LocalVar
  index : Option LocalVar
  collection : Expr
deriving Repr

/-- The body of a declaration. -/
inductive Body where
  | object (value : Expr)
  | conditional (span : Span) (condition : Expr) (body : Body)
  | loop (head : LoopHead) (body : Body)
  /-- What could not be read as one of the others. -/
  | error (span : Span)
deriving Repr

namespace Body

def loopHead? : Body → Option LoopHead
  | loop head _ => some head
  | _ => none

/-- The object inside loops and conditions. -/
def object? : Body → Option Expr
  | object (value@(.object ..)) => some value
  | object _ => none
  | conditional _ _ body => body.object?
  | loop _ body => body.object?
  | error _ => none

def property? (name : String) (body : Body) : Option Expr :=
  body.object?.bind (Expr.property? name)

end Body

structure ResourceDecl where
  span : Span
  symbol : SymbolId
  name : Ident
  /-- The resource type as written. -/
  typeText : String
  /-- Refers to a resource that is deployed already. -/
  existing : Bool
  type : TypeRef
  body : Body

structure ModuleDecl where
  span : Span
  symbol : SymbolId
  name : Ident
  path : String
  type : TypeRef
  body : Body

structure Program where
  file : String
  /-- All resources, nested ones among them, in the order of the text. -/
  resources : List ResourceDecl
  modules : List ModuleDecl
  /-- How many node indices were given out. -/
  indices : Nat

structure Model where
  program : Program
  symbols : SymbolTable
  ancestors : Ancestry := {}
  resourceScopes : Scopes := {}
  moduleScopes : Scopes := {}

end Preflight
