import Preflight.Expr

/-! # Free names

The names that an expression refers to and does not bind itself. A loop binds its variables in its
body but not in its collection, a lambda in its body. -/

namespace Preflight
set_option autoImplicit false

namespace Expr

mutual

def freeNames : Expr → List String
  | int .. | bool .. | null .. => []
  | var _ name => [name]
  | string _ _ holes => freeNamesAll holes
  | array _ items => freeNamesAll items
  | object _ properties => freeNamesIn properties
  | member _ base _ => base.freeNames
  | subscript _ base key => base.freeNames ++ key.freeNames
  | call _ none _ args => freeNamesAll args
  | call _ (some base) _ args => base.freeNames ++ freeNamesAll args
  | unary _ _ operand => operand.freeNames
  | binary _ _ lhs rhs => lhs.freeNames ++ rhs.freeNames
  | ternary _ condition ifTrue ifFalse =>
    condition.freeNames ++ ifTrue.freeNames ++ ifFalse.freeNames
  | loop _ item index collection body =>
    let bound := (item :: index.toList).map LocalVar.name
    collection.freeNames ++ body.freeNames.filter (· ∉ bound)
  | lambda _ params body =>
    let bound := params.map LocalVar.name
    body.freeNames.filter (· ∉ bound)

def freeNamesAll : List Expr → List String
  | [] => []
  | e :: es => e.freeNames ++ freeNamesAll es

def freeNamesIn : List (Property Expr) → List String
  | [] => []
  | ⟨_, _, value⟩ :: ps => value.freeNames ++ freeNamesIn ps

end

theorem freeNamesAll_eq_flatMap (es : List Expr) : freeNamesAll es = es.flatMap freeNames := by
  induction es with
  | nil => rfl
  | cons e es ih => simp [freeNamesAll, ih]

theorem freeNamesIn_eq_flatMap (ps : List (Property Expr)) :
    freeNamesIn ps = ps.flatMap (·.value.freeNames) := by
  induction ps with
  | nil => rfl
  | cons p ps ih => simp [freeNamesIn, ih]

end Expr

end Preflight
