import Preflight.Expr

/-! # The text of an expression

Everything that is nested stands in parentheses. Texts and keys stand in quotes, with a backslash
before each backslash, quote and dollar sign. -/

namespace Preflight
set_option autoImplicit false

def escapeLiteral (text : String) : List Char :=
  text.toList.flatMap fun c => if c = '\\' ∨ c = '\'' ∨ c = '$' then ['\\', c] else [c]

def quoteLiteral (text : String) : List Char := '\'' :: escapeLiteral text ++ ['\'']

def parenthesize (text : List Char) : List Char := '(' :: text ++ [')']

def separate (items : List (List Char)) : List Char := ", ".toList.intercalate items

namespace Expr

/-- Segments with holes between them, as far as there are any. -/
def interleave : List String → List (List Char) → List Char
  | [], holes => holes.flatMap fun hole => "$\x7b".toList ++ parenthesize hole ++ ['}']
  | segment :: segments, [] => escapeLiteral segment ++ interleave segments []
  | segment :: segments, hole :: holes =>
    escapeLiteral segment ++ "$\x7b".toList ++ parenthesize hole ++ '}' :: interleave segments holes

/-- What a loop binds. -/
def renderVariables (item : LocalVar) : Option LocalVar → List Char
  | none => item.name.toList
  | some index => parenthesize (separate [item.name.toList, index.name.toList])

mutual

def render : Expr → List Char
  | string _ segments holes => '\'' :: interleave segments (renderAll holes) ++ ['\'']
  | int _ value => (toString value).toList
  | bool _ value => (toString value).toList
  | null _ => "null".toList
  | var _ name => name.toList
  | array _ items => '[' :: separate ((renderAll items).map parenthesize) ++ [']']
  | object _ properties => '{' :: separate (renderProperties properties) ++ ['}']
  | member _ base name => parenthesize base.render ++ '.' :: name.toList
  | subscript _ base key => parenthesize base.render ++ '[' :: parenthesize key.render ++ [']']
  | call _ none name args =>
    name.toList ++ parenthesize (separate ((renderAll args).map parenthesize))
  | call _ (some base) name args =>
    parenthesize base.render ++ '.' :: name.toList ++
      parenthesize (separate ((renderAll args).map parenthesize))
  | unary _ op operand => op.token.toList ++ parenthesize operand.render
  | binary _ op lhs rhs =>
    parenthesize lhs.render ++ ' ' :: op.token.toList ++ ' ' :: parenthesize rhs.render
  | ternary _ condition ifTrue ifFalse =>
    parenthesize condition.render ++ " ? ".toList ++ parenthesize ifTrue.render ++
      " : ".toList ++ parenthesize ifFalse.render
  | loop _ item index collection body =>
    '[' :: "for ".toList ++ renderVariables item index ++ " in ".toList ++
      parenthesize collection.render ++ ": ".toList ++ parenthesize body.render ++ [']']
  | lambda _ params body =>
    parenthesize (separate (params.map (·.name.toList))) ++ " => ".toList ++
      parenthesize body.render

def renderAll : List Expr → List (List Char)
  | [] => []
  | e :: es => e.render :: renderAll es

def renderProperties : List (Property Expr) → List (List Char)
  | [] => []
  | ⟨_, key, value⟩ :: ps =>
    (quoteLiteral key ++ ": ".toList ++ parenthesize value.render) :: renderProperties ps

end

end Expr

end Preflight
