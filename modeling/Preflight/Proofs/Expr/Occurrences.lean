import Preflight.Proofs.Expr.FreeNames

/-! # Variables and occurrences

The variables that the loops and lambdas of a tree declare, in the order of reading, and the places
where a tree refers to a name, each with the variables that are in sight there. Nothing here knows
of symbols or of the order in which names are bound. -/

namespace Preflight
set_option autoImplicit false

/-- A reference to a name, and the variables in sight around it, outermost first. -/
structure Occurrence where
  node : Node
  name : String
  inSight : List LocalVar
deriving DecidableEq, Repr

/-- The innermost variable of the name. Of two in one binder this is the later one. -/
def Occurrence.binder? (o : Occurrence) : Option LocalVar :=
  o.inSight.reverse.find? (·.name == o.name)

namespace Expr

mutual

/-- The variables of the loops and lambdas in a tree. -/
def declared : Expr → List LocalVar
  | int .. | bool .. | null .. | var .. => []
  | string _ _ holes => declaredAll holes
  | array _ items => declaredAll items
  | object _ properties => declaredIn properties
  | member _ base _ => base.declared
  | subscript _ base key => base.declared ++ key.declared
  | call _ none _ args => declaredAll args
  | call _ (some base) _ args => base.declared ++ declaredAll args
  | unary _ _ operand => operand.declared
  | binary _ _ lhs rhs => lhs.declared ++ rhs.declared
  | ternary _ condition ifTrue ifFalse =>
    condition.declared ++ ifTrue.declared ++ ifFalse.declared
  | loop _ item index collection body =>
    collection.declared ++ (item :: index.toList) ++ body.declared
  | lambda _ params body => params ++ body.declared

def declaredAll : List Expr → List LocalVar
  | [] => []
  | e :: es => e.declared ++ declaredAll es

def declaredIn : List (Property Expr) → List LocalVar
  | [] => []
  | ⟨_, _, value⟩ :: ps => value.declared ++ declaredIn ps

end

mutual

/-- The references of a tree, with `inSight` in sight around it. -/
def occurrences (inSight : List LocalVar) : Expr → List Occurrence
  | int .. | bool .. | null .. => []
  | var node name => [⟨node, name, inSight⟩]
  | string _ _ holes => occurrencesAll inSight holes
  | array _ items => occurrencesAll inSight items
  | object _ properties => occurrencesIn inSight properties
  | member _ base _ => base.occurrences inSight
  | subscript _ base key => base.occurrences inSight ++ key.occurrences inSight
  | call _ none _ args => occurrencesAll inSight args
  | call _ (some base) _ args => base.occurrences inSight ++ occurrencesAll inSight args
  | unary _ _ operand => operand.occurrences inSight
  | binary _ _ lhs rhs => lhs.occurrences inSight ++ rhs.occurrences inSight
  | ternary _ condition ifTrue ifFalse =>
    condition.occurrences inSight ++ ifTrue.occurrences inSight ++ ifFalse.occurrences inSight
  | loop _ item index collection body =>
    collection.occurrences inSight ++ body.occurrences (inSight ++ item :: index.toList)
  | lambda _ params body => body.occurrences (inSight ++ params)

def occurrencesAll (inSight : List LocalVar) : List Expr → List Occurrence
  | [] => []
  | e :: es => e.occurrences inSight ++ occurrencesAll inSight es

def occurrencesIn (inSight : List LocalVar) : List (Property Expr) → List Occurrence
  | [] => []
  | ⟨_, _, value⟩ :: ps => value.occurrences inSight ++ occurrencesIn inSight ps

end

theorem declaredAll_eq_flatMap (es : List Expr) : declaredAll es = es.flatMap declared := by
  induction es with
  | nil => rfl
  | cons e es ih => rw [declaredAll, ih, List.flatMap_cons]

theorem declaredIn_eq_flatMap (ps : List (Property Expr)) :
    declaredIn ps = (ps.map Property.value).flatMap declared := by
  induction ps with
  | nil => rfl
  | cons p ps ih => rw [declaredIn, ih, List.map_cons, List.flatMap_cons]

theorem declared_eq_flatMap {e : Expr} (h : e.isPlain) :
    e.declared = e.children.flatMap declared := by
  rcases e with _ | _ | _ | _ | _ | _ | _ | _ | _ | ⟨_, _ | _, _, _⟩ | _ | _ | _ | _ | _
  case var | loop | lambda => simp [isPlain] at h
  all_goals simp [declared, children, declaredAll_eq_flatMap, declaredIn_eq_flatMap]

section

variable (inSight : List LocalVar)

theorem occurrencesAll_eq_flatMap (es : List Expr) :
    occurrencesAll inSight es = es.flatMap (occurrences inSight) := by
  induction es with
  | nil => rfl
  | cons e es ih => rw [occurrencesAll, ih, List.flatMap_cons]

theorem occurrencesIn_eq_flatMap (ps : List (Property Expr)) :
    occurrencesIn inSight ps = (ps.map Property.value).flatMap (occurrences inSight) := by
  induction ps with
  | nil => rfl
  | cons p ps ih => rw [occurrencesIn, ih, List.map_cons, List.flatMap_cons]

theorem occurrences_eq_flatMap {e : Expr} (h : e.isPlain) :
    e.occurrences inSight = e.children.flatMap (occurrences inSight) := by
  rcases e with _ | _ | _ | _ | _ | _ | _ | _ | _ | ⟨_, _ | _, _, _⟩ | _ | _ | _ | _ | _
  case var | loop | lambda => simp [isPlain] at h
  all_goals simp [occurrences, children, occurrencesAll_eq_flatMap, occurrencesIn_eq_flatMap]

end

/-- The references are the parts of a tree that are one. -/
theorem exists_occurrence_iff {n : Node} {x : String} {e : Expr} {inSight : List LocalVar} :
    (∃ o ∈ e.occurrences inSight, o.node = n ∧ o.name = x) ↔ PartOf (var n x) e := by
  induction e using scopeInduction generalizing inSight with
  | plain e h ih =>
    rw [reference_partOf_iff (isReference_of_isPlain h), occurrences_eq_flatMap inSight h]
    constructor
    · rintro ⟨o, ho, hnode⟩
      obtain ⟨c, hc, hoc⟩ := List.mem_flatMap.mp ho
      exact ⟨c, hc, (ih c hc).mp ⟨o, hoc, hnode⟩⟩
    · rintro ⟨c, hc, part⟩
      obtain ⟨o, ho, hnode⟩ := (ih c hc).mpr part
      exact ⟨o, List.mem_flatMap.mpr ⟨c, hc, ho⟩, hnode⟩
  | var m y => simp [occurrences, reference_partOf_var_iff, eq_comm]
  | loop m item index collection body ihc ihb =>
    rw [reference_partOf_iff rfl]
    simp only [occurrences, List.mem_append, or_and_right, exists_or, ihc, ihb, children,
      List.mem_cons, List.not_mem_nil, or_false, exists_eq_left]
  | lambda m params body ih =>
    rw [reference_partOf_iff rfl]
    simp only [occurrences, ih, children, List.mem_singleton, exists_eq_left]

/-- What is in sight of a reference is in sight around the tree or declared in it. -/
theorem mem_of_inSight {o : Occurrence} {e : Expr} {inSight : List LocalVar}
    (h : o ∈ e.occurrences inSight) {v : LocalVar} (hv : v ∈ o.inSight) :
    v ∈ inSight ∨ v ∈ e.declared := by
  induction e using scopeInduction generalizing inSight with
  | plain e hplain ih =>
    rw [occurrences_eq_flatMap inSight hplain] at h
    rw [declared_eq_flatMap hplain]
    obtain ⟨c, hc, ho⟩ := List.mem_flatMap.mp h
    exact (ih c hc ho).imp_right fun hd => List.mem_flatMap.mpr ⟨c, hc, hd⟩
  | var n x =>
    obtain rfl := List.mem_singleton.mp h
    exact .inl hv
  | loop n item index collection body ihc ihb =>
    simp only [declared, List.mem_append]
    rcases List.mem_append.mp h with h | h
    · exact (ihc h).imp_right fun hd => .inl (.inl hd)
    · rcases ihb h with hd | hd
      · exact (List.mem_append.mp hd).imp_right fun hd => .inl (.inr hd)
      · exact .inr (.inr hd)
  | lambda n params body ih =>
    simp only [declared, List.mem_append]
    rcases ih h with hd | hd
    · exact (List.mem_append.mp hd).imp_right .inl
    · exact .inr (.inr hd)

end Expr

/-- The variables of the loops and lambdas below a declaration. -/
def Body.declared : Body → List LocalVar
  | .object value => value.declared
  | .conditional _ condition body => condition.declared ++ body.declared
  | .loop head body =>
    head.collection.declared ++ (head.item :: head.index.toList) ++ body.declared
  | .error _ => []

/-- The references below a declaration. The variables of a loop are in sight in the condition and
in the object, but not in the collection. -/
def Body.occurrences (inSight : List LocalVar) : Body → List Occurrence
  | .object value => value.occurrences inSight
  | .conditional _ condition body => condition.occurrences inSight ++ body.occurrences inSight
  | .loop head body => head.collection.occurrences inSight ++
    body.occurrences (inSight ++ head.item :: head.index.toList)
  | .error _ => []

theorem Body.mem_of_inSight {o : Occurrence} {body : Body} {inSight : List LocalVar}
    (h : o ∈ body.occurrences inSight) {v : LocalVar} (hv : v ∈ o.inSight) :
    v ∈ inSight ∨ v ∈ body.declared := by
  induction body generalizing inSight with
  | object value => exact Expr.mem_of_inSight h hv
  | conditional span condition body ih =>
    rw [declared, List.mem_append]
    rcases List.mem_append.mp h with h | h
    · exact (Expr.mem_of_inSight h hv).imp_right .inl
    · exact (ih h).imp_right .inr
  | loop head body ih =>
    simp only [declared, List.mem_append]
    rcases List.mem_append.mp h with h | h
    · exact (Expr.mem_of_inSight h hv).imp_right fun hd => .inl (.inl hd)
    · rcases ih h with hd | hd
      · exact (List.mem_append.mp hd).imp_right fun hd => .inl (.inr hd)
      · exact .inr (.inr hd)
  | error span => cases h

end Preflight
