import Preflight.Program

/-! # Lexical binding

Names are resolved in the order in which the text is read. The variables of a loop are seen in
its body but not in its collection, those of a lambda in its body; the innermost declaration of a
name wins, and of two in one binder the later one. Each loop or lambda variable gets a symbol of
its own. -/

namespace Preflight
set_option autoImplicit false

/-- The names in sight, innermost first. -/
abbrev Names := List (String × SymbolId)

abbrev Binder := StateT SymbolTable (Except BindError)

namespace Binder

def bind (index : Nat) (id : SymbolId) : Binder Unit := fun table => do
  return ((), ← table.bind index id)

def declareLocal (v : LocalVar) (names : Names) : Binder Names := do
  let id := (← get).nextId
  modify (·.declare v.name .localVar)
  bind v.node.index id
  return (v.name, id) :: names

def declareLocals (vars : List LocalVar) (names : Names) : Binder Names :=
  vars.foldlM (fun names v => declareLocal v names) names

def reference (names : Names) (node : Node) (name : String) : Binder Unit :=
  match names.lookup name with
  | none => return
  | some id => bind node.index id

mutual

def expr (names : Names) : Expr → Binder Unit
  | .int .. | .bool .. | .null .. => return
  | .var node name => reference names node name
  | .string _ _ holes => exprs names holes
  | .array _ items => exprs names items
  | .object _ ps => properties names ps
  | .member _ base _ => expr names base
  | .subscript _ base key => do
    expr names base
    expr names key
  | .call _ none _ args => exprs names args
  | .call _ (some base) _ args => do
    expr names base
    exprs names args
  | .unary _ _ operand => expr names operand
  | .binary _ _ lhs rhs => do
    expr names lhs
    expr names rhs
  | .ternary _ condition ifTrue ifFalse => do
    expr names condition
    expr names ifTrue
    expr names ifFalse
  | .loop _ item index collection body => do
    expr names collection
    let names ← declareLocals (item :: index.toList) names
    expr names body
  | .lambda _ params body => do
    let names ← declareLocals params names
    expr names body

def exprs (names : Names) : List Expr → Binder Unit
  | [] => return
  | e :: es => do
    expr names e
    exprs names es

def properties (names : Names) : List (Property Expr) → Binder Unit
  | [] => return
  | ⟨_, _, value⟩ :: ps => do
    expr names value
    properties names ps

end

def body (names : Names) : Body → Binder Unit
  | .object value => expr names value
  | .conditional _ condition inner => do
    expr names condition
    body names inner
  | .loop head inner => do
    expr names head.collection
    let names ← declareLocals (head.item :: head.index.toList) names
    body names inner
  | .error _ => return

def bodies (names : Names) : List Body → Binder Unit
  | [] => return
  | b :: bs => do
    body names b
    bodies names bs

end Binder

/-- The table after binding every name in `bodies`, with `names` in sight everywhere. -/
def SymbolTable.bindAll (table : SymbolTable) (names : Names) (bodies : List Body) :
    Except BindError SymbolTable :=
  return (← (Binder.bodies names bodies).run table).2

end Preflight
