import Preflight.Symbol

/-! # Substitution

References are replaced by their nodes. One iteration of a loop is the body with the loop's
variables replaced by their values. -/

namespace Preflight
set_option autoImplicit false

namespace Expr

mutual

/-- Puts `new n` in place of each reference whose node is `n`, where there is such a thing. -/
def substitute (new : Node → Option Expr) : Expr → Expr
  | int n value => int n value
  | bool n value => bool n value
  | null n => null n
  | var n name => (new n).getD (var n name)
  | string n segments holes => string n segments (substituteAll new holes)
  | array n items => array n (substituteAll new items)
  | object n properties => object n (substituteIn new properties)
  | member n base name => member n (base.substitute new) name
  | subscript n base key => subscript n (base.substitute new) (key.substitute new)
  | call n none name args => call n none name (substituteAll new args)
  | call n (some base) name args =>
    call n (some (base.substitute new)) name (substituteAll new args)
  | unary n op operand => unary n op (operand.substitute new)
  | binary n op lhs rhs => binary n op (lhs.substitute new) (rhs.substitute new)
  | ternary n condition ifTrue ifFalse =>
    ternary n (condition.substitute new) (ifTrue.substitute new) (ifFalse.substitute new)
  | loop n item index collection body =>
    loop n item index (collection.substitute new) (body.substitute new)
  | lambda n params body => lambda n params (body.substitute new)

def substituteAll (new : Node → Option Expr) : List Expr → List Expr
  | [] => []
  | e :: es => e.substitute new :: substituteAll new es

def substituteIn (new : Node → Option Expr) : List (Property Expr) → List (Property Expr)
  | [] => []
  | ⟨s, key, value⟩ :: ps => ⟨s, key, value.substitute new⟩ :: substituteIn new ps

end

/-- One iteration of a loop: references to the local symbol `item` become `u`, and those to the
index, if there is one, become `v`. -/
def unroll (symbols : SymbolTable) (item : SymbolId) (index : Option SymbolId) (u v : Expr)
    (e : Expr) : Expr :=
  e.substitute fun n =>
    if symbols.localAt? n.index = some item then some u
    else if index.isSome ∧ symbols.localAt? n.index = index then some v
    else none

end Expr

end Preflight
