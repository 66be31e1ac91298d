import Preflight.Proofs.Expr.Alike
import Preflight.Proofs.Binding

/-! # Places in a tree

A place is told by the numbers of the children that lead to it. Like trees have like parts at each
place, and what is captured on the way to it has the same names. -/

namespace Preflight
set_option autoImplicit false

namespace Expr

/-- The part of a tree at the end of a path of child numbers. -/
def part? : List Nat → Expr → Option Expr
  | [], e => some e
  | i :: path, e => e.children[i]?.bind (part? path)

/-- The variables that a node brings into sight in its child number `i`. -/
def binders (i : Nat) : Expr → List LocalVar
  | loop _ item index _ _ => if i = 1 then item :: index.toList else []
  | lambda _ params _ => params
  | _ => []

/-- The names of the variables that come into sight on the way to a place. -/
def captured : List Nat → Expr → List String
  | [], _ => []
  | i :: path, e =>
    (e.binders i).map LocalVar.name ++ (e.children[i]?.map (captured path)).getD []

theorem Matches.children {R : Expr → Expr → Prop} {a b : Expr} (h : Matches R a b) :
    List.Forall₂ R a.children b.children := by
  cases h with
  | string _ children | array children => exact children
  | int | bool | null | var => exact .nil
  | object properties =>
    rw [Expr.children, Expr.children, List.forall₂_map_left_iff, List.forall₂_map_right_iff]
    exact properties.imp fun _ _ h => h.2
  | member child | unary child | lambda _ child => exact .cons child .nil
  | subscript first second | binary first second | loop _ _ first second =>
    exact .cons first (.cons second .nil)
  | call base args =>
    cases base with
    | none => exact args
    | some base => exact .cons base args
  | ternary first second third => exact .cons first (.cons second (.cons third .nil))

theorem Matches.binders {R : Expr → Expr → Prop} {a b : Expr} (h : Matches R a b) (i : Nat) :
    (a.binders i).map LocalVar.name = (b.binders i).map LocalVar.name := by
  cases h with
  | loop item index =>
    by_cases hi : i = 1
    · simp only [Expr.binders, if_pos hi, List.map_cons, item, ← Option.toList_map, index]
    · simp only [Expr.binders, if_neg hi]
  | lambda params => exact params
  | _ => rfl

theorem part?_of_alike {path : List Nat} {a b x : Expr} (h : a.alike b = true)
    (hx : a.part? path = some x) :
    ∃ y, b.part? path = some y ∧ x.alike y = true ∧ a.captured path = b.captured path := by
  induction path generalizing a b with
  | nil =>
    obtain rfl : a = x := Option.some.inj hx
    exact ⟨b, rfl, h, rfl⟩
  | cons i path ih =>
    obtain ⟨c, hc, hx⟩ := Option.bind_eq_some_iff.mp hx
    have hmatches := alike_iff_matches.mp h
    obtain ⟨hi, rfl⟩ := List.getElem?_eq_some_iff.mp hc
    have hi' : i < b.children.length := hmatches.children.length_eq ▸ hi
    have hcd : a.children[i].alike b.children[i] = true := hmatches.children.get hi hi'
    have hd := List.getElem?_eq_getElem hi'
    obtain ⟨y, hy, hxy, hcaptured⟩ := ih hcd hx
    refine ⟨y, ?_, hxy, ?_⟩
    · rw [part?, hd, Option.bind_some, hy]
    · rw [captured, captured, hc, hd, hmatches.binders, Option.map_some, Option.map_some, hcaptured]

theorem exists_var_of_alike {n : Node} {x : String} {e : Expr} (h : (var n x).alike e = true) :
    ∃ m, e = var m x := by
  cases alike_iff_matches.mp h
  exact ⟨_, rfl⟩

end Expr

variable {t : SymbolTable} {names middle inner : Names}

theorem Declares.append {vars vars' : List LocalVar} (h : Declares t names vars middle)
    (h' : Declares t middle vars' inner) : Declares t names (vars ++ vars') inner := by
  induction h with
  | nil => exact h'
  | cons introduces _ ih => exact .cons introduces (ih h')

namespace Expr.Bound

theorem of_getElem?_children {e c : Expr} {i : Nat} (h : Expr.Bound t names e)
    (hc : e.children[i]? = some c) :
    ∃ inner, Declares t names (e.binders i) inner ∧ Expr.Bound t inner c := by
  cases h with
  | reference => simp [Expr.children] at hc
  | loop outside declares inside =>
    match i, hc with
    | 0, hc =>
      obtain rfl := Option.some.inj hc
      exact ⟨names, .nil, outside⟩
    | 1, hc =>
      obtain rfl := Option.some.inj hc
      exact ⟨_, declares, inside⟩
  | lambda declares inside =>
    match i, hc with
    | 0, hc =>
      obtain rfl := Option.some.inj hc
      exact ⟨_, declares, inside⟩
  | plain plain children =>
    have hnone : e.binders i = [] := by
      cases e with
      | loop | lambda => simp [Expr.isPlain] at plain
      | _ => rfl
    rw [hnone]
    exact ⟨names, .nil, children c (List.mem_of_getElem? hc)⟩

/-- What stands at a place is bound with the variables in sight that were captured on the way. -/
theorem part {path : List Nat} {e c : Expr} (h : Expr.Bound t names e)
    (hc : e.part? path = some c) : ∃ vars inner, vars.map LocalVar.name = e.captured path ∧
      Declares t names vars inner ∧ Expr.Bound t inner c := by
  induction path generalizing names e with
  | nil =>
    obtain rfl : e = c := Option.some.inj hc
    exact ⟨[], names, rfl, .nil, h⟩
  | cons i path ih =>
    obtain ⟨d, hd, hc⟩ := Option.bind_eq_some_iff.mp hc
    obtain ⟨middle, declares, hbound⟩ := h.of_getElem?_children hd
    obtain ⟨vars, inner, hnames, declares', hinside⟩ := ih hbound hc
    refine ⟨e.binders i ++ vars, inner, ?_, declares.append declares', hinside⟩
    rw [Expr.captured, hd, List.map_append, hnames, Option.map_some, Option.getD_some]

end Expr.Bound

end Preflight
