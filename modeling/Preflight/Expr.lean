import Preflight.Span

/-! # Expressions

The tree of a bound program. Every node carries the span it was read from and an index of its own,
under which tables beside the tree keep what is known about it. -/

namespace Preflight
set_option autoImplicit false

inductive UnaryOp where
  | not | minus
deriving DecidableEq, Hashable, Repr

inductive BinaryOp where
  | add | sub | mul | div | mod
  | eq | ne | eqInsensitive | neInsensitive
  | lt | le | gt | ge
  | and | or | coalesce
deriving DecidableEq, Hashable, Repr

def UnaryOp.token : UnaryOp → String
  | not => "!"
  | minus => "-"

def BinaryOp.token : BinaryOp → String
  | add => "+"
  | sub => "-"
  | mul => "*"
  | div => "/"
  | mod => "%"
  | eq => "=="
  | ne => "!="
  | eqInsensitive => "=~"
  | neInsensitive => "!~"
  | lt => "<"
  | le => "<="
  | gt => ">"
  | ge => ">="
  | and => "&&"
  | or => "||"
  | coalesce => "??"

structure Node where
  span : Span := {}
  index : Nat := 0
deriving DecidableEq, Repr, Inhabited

structure LocalVar where
  node : Node
  name : String
deriving DecidableEq, Repr

/-- `key: value` inside an object. -/
structure Property (ε : Type) where
  span : Span
  key : String
  value : ε
deriving Repr

inductive Expr where
  /-- Literal segments around holes. A string that was read has one segment more than holes. -/
  | string (node : Node) (segments : List String) (holes : List Expr)
  | int (node : Node) (value : Int)
  | bool (node : Node) (value : Bool)
  | null (node : Node)
  | var (node : Node) (name : String)
  | array (node : Node) (items : List Expr)
  | object (node : Node) (properties : List (Property Expr))
  /-- `base.name` -/
  | member (node : Node) (base : Expr) (name : String)
  /-- `base[key]` -/
  | subscript (node : Node) (base key : Expr)
  /-- `name(args)` or `base.name(args)` -/
  | call (node : Node) (base : Option Expr) (name : String) (args : List Expr)
  | unary (node : Node) (op : UnaryOp) (operand : Expr)
  | binary (node : Node) (op : BinaryOp) (lhs rhs : Expr)
  | ternary (node : Node) (condition ifTrue ifFalse : Expr)
  /-- `[for item in collection: body]` or `[for (item, index) in collection: body]` -/
  | loop (node : Node) (item : LocalVar) (index : Option LocalVar) (collection body : Expr)
  /-- `(params) => body` -/
  | lambda (node : Node) (params : List LocalVar) (body : Expr)
deriving Repr

/-- What may be changed in a tree that keeps its shape. -/
structure Relabelling where
  span : Span → Span := id
  index : Nat → Nat := id
  segment : String → String := id

def Node.map (r : Relabelling) (n : Node) : Node := ⟨r.span n.span, r.index n.index⟩

def LocalVar.map (r : Relabelling) (v : LocalVar) : LocalVar := { v with node := v.node.map r }

namespace Expr

def node : Expr → Node
  | string n .. | int n .. | bool n .. | null n | var n .. | array n .. | object n ..
  | member n .. | subscript n .. | call n .. | unary n .. | binary n .. | ternary n ..
  | loop n .. | lambda n .. => n

def span (e : Expr) : Span := e.node.span

def index (e : Expr) : Nat := e.node.index

def literal? : Expr → Option String
  | string _ [text] [] => some text
  | _ => none

def isString : Expr → Bool
  | string .. => true
  | _ => false

def property? (key : String) : Expr → Option Expr
  | object _ properties => (properties.find? (·.key == key)).map (·.value)
  | _ => none

mutual

def map (r : Relabelling) : Expr → Expr
  | string n segments holes => string (n.map r) (segments.map r.segment) (mapAll r holes)
  | int n value => int (n.map r) value
  | bool n value => bool (n.map r) value
  | null n => null (n.map r)
  | var n name => var (n.map r) name
  | array n items => array (n.map r) (mapAll r items)
  | object n properties => object (n.map r) (mapProperties r properties)
  | member n base name => member (n.map r) (base.map r) name
  | subscript n base key => subscript (n.map r) (base.map r) (key.map r)
  | call n none name args => call (n.map r) none name (mapAll r args)
  | call n (some base) name args => call (n.map r) (some (base.map r)) name (mapAll r args)
  | unary n op operand => unary (n.map r) op (operand.map r)
  | binary n op lhs rhs => binary (n.map r) op (lhs.map r) (rhs.map r)
  | ternary n condition ifTrue ifFalse =>
    ternary (n.map r) (condition.map r) (ifTrue.map r) (ifFalse.map r)
  | loop n item index collection body =>
    loop (n.map r) (item.map r) (index.map (·.map r)) (collection.map r) (body.map r)
  | lambda n params body => lambda (n.map r) (params.map (·.map r)) (body.map r)

def mapAll (r : Relabelling) : List Expr → List Expr
  | [] => []
  | e :: es => e.map r :: mapAll r es

def mapProperties (r : Relabelling) : List (Property Expr) → List (Property Expr)
  | [] => []
  | ⟨s, key, value⟩ :: ps => ⟨r.span s, key, value.map r⟩ :: mapProperties r ps

end

/-- The tree of a text on its own, placed where the text stands in a file and numbered on from
`first`. -/
def place (p : Position) (first : Nat) (e : Expr) : Expr :=
  e.map { span := Span.shift p, index := (first + ·) }

def erase (e : Expr) : Expr := e.map { span := fun _ => {}, index := fun _ => 0 }

end Expr

end Preflight
