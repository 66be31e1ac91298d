import Preflight.Expr

/-! # Children and parts of an expression

The children of a node in the order of reading, induction over them, and the parts of a tree: the
nodes at any depth. -/

namespace Preflight
set_option autoImplicit false

namespace Expr

def children : Expr → List Expr
  | int .. | bool .. | null .. | var .. => []
  | string _ _ holes => holes
  | array _ items => items
  | object _ properties => properties.map Property.value
  | member _ base _ => [base]
  | subscript _ base key => [base, key]
  | call _ base _ args => base.toList ++ args
  | unary _ _ operand => [operand]
  | binary _ _ lhs rhs => [lhs, rhs]
  | ternary _ condition ifTrue ifFalse => [condition, ifTrue, ifFalse]
  | loop _ _ _ collection body => [collection, body]
  | lambda _ _ body => [body]

mutual

private theorem holds {P : Expr → Prop} (step : ∀ e : Expr, (∀ c ∈ e.children, P c) → P e) :
    ∀ e : Expr, P e
  | int .. | bool .. | null .. | var .. => step _ (by simp [children])
  | string _ _ holes => step _ (holdsAll step holes)
  | array _ items => step _ (holdsAll step items)
  | object _ properties => step _ (holdsIn step properties)
  | member _ base _ => step _ (by simpa [children] using holds step base)
  | subscript _ base key => step _ (by simpa [children] using ⟨holds step base, holds step key⟩)
  | call _ none _ args => step _ (by simpa [children] using holdsAll step args)
  | call _ (some base) _ args =>
    step _ (by simpa [children] using ⟨holds step base, holdsAll step args⟩)
  | unary _ _ operand => step _ (by simpa [children] using holds step operand)
  | binary _ _ lhs rhs => step _ (by simpa [children] using ⟨holds step lhs, holds step rhs⟩)
  | ternary _ condition ifTrue ifFalse =>
    step _ (by simpa [children] using ⟨holds step condition, holds step ifTrue, holds step ifFalse⟩)
  | loop _ _ _ collection body =>
    step _ (by simpa [children] using ⟨holds step collection, holds step body⟩)
  | lambda _ _ body => step _ (by simpa [children] using holds step body)

private theorem holdsAll {P : Expr → Prop} (step : ∀ e : Expr, (∀ c ∈ e.children, P c) → P e) :
    ∀ es : List Expr, ∀ c ∈ es, P c
  | [] => by simp
  | e :: es => by simpa using ⟨holds step e, holdsAll step es⟩

private theorem holdsIn {P : Expr → Prop} (step : ∀ e : Expr, (∀ c ∈ e.children, P c) → P e) :
    ∀ ps : List (Property Expr), ∀ c ∈ ps.map Property.value, P c
  | [] => by simp
  | ⟨_, _, value⟩ :: ps => by
    have hs := holdsIn step ps
    simp only [List.map_cons, List.mem_cons, forall_eq_or_imp]
    exact ⟨holds step value, hs⟩

end

/-- What holds of a node whenever it holds of its children holds of every node. -/
theorem childInduction {P : Expr → Prop} (step : ∀ e : Expr, (∀ c ∈ e.children, P c) → P e)
    (e : Expr) : P e :=
  holds step e

/-- The first expression is a node of the second. -/
inductive PartOf : Expr → Expr → Prop where
  | self (e : Expr) : PartOf e e
  | child {x c e : Expr} (mem : c ∈ e.children) (part : PartOf x c) : PartOf x e

theorem PartOf.trans {x y z : Expr} (h : PartOf x y) (h' : PartOf y z) : PartOf x z := by
  induction h' with
  | self => exact h
  | child mem _ ih => exact .child mem ih

theorem mapAll_eq_map (r : Relabelling) (es : List Expr) : mapAll r es = es.map (map r) := by
  induction es with
  | nil => rfl
  | cons e es ih => simp [mapAll, ih]

theorem mapProperties_eq_map (r : Relabelling) (ps : List (Property Expr)) :
    mapProperties r ps = ps.map fun p => ⟨r.span p.span, p.key, p.value.map r⟩ := by
  induction ps with
  | nil => rfl
  | cons p ps ih => simp [mapProperties, ih]

@[simp] theorem children_map (r : Relabelling) (e : Expr) :
    (e.map r).children = e.children.map (map r) := by
  rcases e with _ | _ | _ | _ | _ | _ | _ | _ | _ | ⟨_, _ | _, _, _⟩ | _ | _ | _ | _ | _ <;>
    simp [map, children, mapAll_eq_map, mapProperties_eq_map]

@[simp] theorem node_map (r : Relabelling) (e : Expr) : (e.map r).node = e.node.map r := by
  rcases e with _ | _ | _ | _ | _ | _ | _ | _ | _ | ⟨_, _ | _, _, _⟩ | _ | _ | _ | _ | _ <;> rfl

end Expr

end Preflight
