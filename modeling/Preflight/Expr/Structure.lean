import Preflight.Expr
import Preflight.Text.Lowercase

/-! # Structural equality of expressions

Two expressions are alike if they agree node for node, spans and indices aside. The literal
segments of strings are compared in lower case, each by itself; all other texts are compared as
they are. A digest lists what is fed to a hash, in order; like expressions have one digest. -/

namespace Preflight
set_option autoImplicit false

inductive Mark where
  | node (kind : Nat)
  | count (n : Nat)
  | text (s : String)
  | name (s : Option String)
  | id (n : Option Nat)
  | number (n : Int)
  | flag (b : Bool)
  | unaryOp (op : UnaryOp)
  | binaryOp (op : BinaryOp)
deriving DecidableEq, Hashable, Repr

namespace Expr

/-- The tree without spans and indices, with literal segments in lower case. -/
def normalForm (e : Expr) : Expr :=
  e.map { span := fun _ => {}, index := fun _ => 0, segment := lowercase }

def alikeSegments (s t : List String) : Bool := s.map lowercase == t.map lowercase

mutual

def alike : Expr → Expr → Bool
  | string _ s hs, e => match e with
    | string _ t ks => alikeSegments s t && alikeAll hs ks
    | _ => false
  | int _ m, e => match e with
    | int _ n => m == n
    | _ => false
  | bool _ b, e => match e with
    | bool _ c => b == c
    | _ => false
  | null _, e => match e with
    | null _ => true
    | _ => false
  | var _ x, e => match e with
    | var _ y => x == y
    | _ => false
  | array _ es, e => match e with
    | array _ fs => alikeAll es fs
    | _ => false
  | object _ ps, e => match e with
    | object _ qs => alikeProperties ps qs
    | _ => false
  | member _ b x, e => match e with
    | member _ c y => x == y && alike b c
    | _ => false
  | subscript _ b k, e => match e with
    | subscript _ c l => alike b c && alike k l
    | _ => false
  | call _ none x es, e => match e with
    | call _ none y fs => x == y && alikeAll es fs
    | _ => false
  | call _ (some b) x es, e => match e with
    | call _ (some c) y fs => x == y && alike b c && alikeAll es fs
    | _ => false
  | unary _ o b, e => match e with
    | unary _ p c => o == p && alike b c
    | _ => false
  | binary _ o l r, e => match e with
    | binary _ p l' r' => o == p && alike l l' && alike r r'
    | _ => false
  | ternary _ c t f, e => match e with
    | ternary _ c' t' f' => alike c c' && alike t t' && alike f f'
    | _ => false
  | loop _ x i c b, e => match e with
    | loop _ y j c' b' =>
      x.name == y.name && i.map LocalVar.name == j.map LocalVar.name && alike c c' && alike b b'
    | _ => false
  | lambda _ xs b, e => match e with
    | lambda _ ys c => xs.map LocalVar.name == ys.map LocalVar.name && alike b c
    | _ => false

def alikeAll : List Expr → List Expr → Bool
  | [], [] => true
  | e :: es, f :: fs => alike e f && alikeAll es fs
  | _, _ => false

def alikeProperties : List (Property Expr) → List (Property Expr) → Bool
  | [], [] => true
  | ⟨_, k, v⟩ :: ps, ⟨_, l, w⟩ :: qs => k == l && alike v w && alikeProperties ps qs
  | _, _ => false

end

mutual

def digest : Expr → List Mark
  | string _ segments holes =>
    .node 0 :: .count segments.length :: (segments.map (.text ∘ lowercase) ++ digestAll holes)
  | int _ value => [.node 1, .number value]
  | bool _ value => [.node 2, .flag value]
  | null _ => [.node 3]
  | var _ name => [.node 4, .text name]
  | array _ items => .node 5 :: .count items.length :: digestAll items
  | object _ properties => .node 6 :: .count properties.length :: digestProperties properties
  | member _ base name => .node 7 :: .text name :: digest base
  | subscript _ base key => .node 8 :: (digest base ++ digest key)
  | call _ none name args =>
    .node 9 :: .text name :: .flag false :: .count args.length :: digestAll args
  | call _ (some base) name args =>
    .node 9 :: .text name :: .flag true :: (digest base ++ .count args.length :: digestAll args)
  | unary _ op operand => .node 10 :: .unaryOp op :: digest operand
  | binary _ op lhs rhs => .node 11 :: .binaryOp op :: (digest lhs ++ digest rhs)
  | ternary _ condition ifTrue ifFalse =>
    .node 12 :: (digest condition ++ digest ifTrue ++ digest ifFalse)
  | loop _ item index collection body =>
    .node 13 :: .text item.name :: .name (index.map LocalVar.name) ::
      (digest collection ++ digest body)
  | lambda _ params body =>
    .node 14 :: .count params.length :: (params.map (.text ∘ LocalVar.name) ++ digest body)

def digestAll : List Expr → List Mark
  | [] => []
  | e :: es => digest e ++ digestAll es

def digestProperties : List (Property Expr) → List Mark
  | [] => []
  | ⟨_, key, value⟩ :: ps => .text key :: (digest value ++ digestProperties ps)

end

end Expr

end Preflight
