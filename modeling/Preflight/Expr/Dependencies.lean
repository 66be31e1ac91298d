import Preflight.Symbol
import Std.Data.TreeSet

/-! # Local variables that an expression depends on

Every reference counts, however deep it stands. The variables that a nested loop or lambda declares
are no references. -/

namespace Preflight
set_option autoImplicit false

namespace Expr

variable (symbols : SymbolTable)

mutual

/-- The local variables referred to, in the order of reading. -/
def localReferences : Expr → List SymbolId
  | int .. | bool .. | null .. => []
  | var node _ => (symbols.localAt? node.index).toList
  | string _ _ holes => localReferencesAll holes
  | array _ items => localReferencesAll items
  | object _ properties => localReferencesIn properties
  | member _ base _ => localReferences base
  | subscript _ base key => localReferences base ++ localReferences key
  | call _ none _ args => localReferencesAll args
  | call _ (some base) _ args => localReferences base ++ localReferencesAll args
  | unary _ _ operand => localReferences operand
  | binary _ _ lhs rhs => localReferences lhs ++ localReferences rhs
  | ternary _ condition ifTrue ifFalse =>
    localReferences condition ++ localReferences ifTrue ++ localReferences ifFalse
  | loop _ _ _ collection body => localReferences collection ++ localReferences body
  | lambda _ _ body => localReferences body

def localReferencesAll : List Expr → List SymbolId
  | [] => []
  | e :: es => localReferences e ++ localReferencesAll es

def localReferencesIn : List (Property Expr) → List SymbolId
  | [] => []
  | ⟨_, _, value⟩ :: ps => localReferences value ++ localReferencesIn ps

end

def localDependencies (e : Expr) : Std.TreeSet SymbolId := .ofList (e.localReferences symbols)

/-- Whether an expression is the same in every iteration of a loop: it refers to no variable of the
loop. A variable that is bound to no local symbol makes nothing invariant. -/
def isInvariant (item : LocalVar) (index : Option LocalVar) (e : Expr) : Bool :=
  let dependencies := e.localDependencies symbols
  (item :: index.toList).all fun v =>
    (symbols.declaredLocal? v).any fun id => !dependencies.contains id

@[simp] theorem mem_localDependencies {e : Expr} {id : SymbolId} :
    id ∈ e.localDependencies symbols ↔ id ∈ e.localReferences symbols := by
  simp [localDependencies]

end Expr

end Preflight
