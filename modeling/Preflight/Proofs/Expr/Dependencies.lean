import Preflight.Proofs.Expr.Places
import Preflight.Proofs.Expr.References

/-! # What an expression depends on

The dependencies of a tree are the local variables that its references are bound to, at any depth.
They are made up of those of its parts: where a part is replaced, what stands elsewhere keeps its
own, and the new part brings what it depends on itself. -/

namespace Preflight
set_option autoImplicit false

namespace Expr

/-! ## Parts that are replaced -/

/-- The node with other children, as many as it has. -/
def withChildren : Expr → List Expr → Expr
  | string n segments _, holes => string n segments holes
  | array n _, items => array n items
  | object n properties, values =>
    object n (properties.zipWith (fun p value => { p with value }) values)
  | member n _ name, [base] => member n base name
  | subscript n _ _, [base, key] => subscript n base key
  | call n none name _, args => call n none name args
  | call n (some _) name _, base :: args => call n (some base) name args
  | unary n op _, [operand] => unary n op operand
  | binary n op _ _, [lhs, rhs] => binary n op lhs rhs
  | ternary n _ _ _, [condition, ifTrue, ifFalse] => ternary n condition ifTrue ifFalse
  | loop n item index _ _, [collection, body] => loop n item index collection body
  | lambda n params _, [body] => lambda n params body
  | e, _ => e

/-- The tree with `new` in the place that the path of child numbers leads to. -/
def replaceAt : Expr → List Nat → Expr → Expr
  | _, [], new => new
  | e, i :: path, new => e.withChildren (e.children.modify i (replaceAt · path new))

theorem map_value_zipWith {ps : List (Property Expr)} {values : List Expr}
    (h : values.length = ps.length) :
    (ps.zipWith (fun p value => { p with value }) values).map Property.value = values := by
  induction ps generalizing values with
  | nil =>
    have hnil : values = [] := List.length_eq_zero_iff.mp h
    rw [hnil]
    rfl
  | cons p ps ih =>
    cases values with
    | nil => cases h
    | cons value values =>
      have htail := ih (Nat.succ.inj h)
      rw [List.zipWith_cons_cons, List.map_cons, htail]

theorem zipWith_map_value (ps : List (Property Expr)) :
    ps.zipWith (fun p value => { p with value }) (ps.map Property.value) = ps := by
  induction ps with
  | nil => rfl
  | cons p ps ih => rw [List.map_cons, List.zipWith_cons_cons, ih]

theorem children_withChildren {e : Expr} {cs : List Expr}
    (h : cs.length = e.children.length) : (e.withChildren cs).children = cs := by
  cases e with
  | object n ps =>
    rw [children, List.length_map] at h
    exact map_value_zipWith h
  | string | array => rfl
  | int | bool | null | var =>
    have hnil : cs = [] := List.length_eq_zero_iff.mp h
    rw [hnil]
    rfl
  | member | unary | lambda =>
    obtain ⟨a, rfl⟩ := List.length_eq_one_iff.mp h
    rfl
  | subscript | binary | loop =>
    obtain ⟨a, b, rfl⟩ := List.length_eq_two.mp h
    rfl
  | ternary =>
    obtain ⟨a, b, c, rfl⟩ := List.length_eq_three.mp h
    rfl
  | call n base name args =>
    cases base with
    | none => rfl
    | some base =>
      cases cs with
      | nil => cases h
      | cons a cs => rfl

theorem withChildren_children (e : Expr) : e.withChildren e.children = e := by
  cases e with
  | object n ps =>
    rw [children, withChildren, zipWith_map_value]
  | call n base name args => cases base <;> rfl
  | _ => rfl

theorem isReference_withChildren (e : Expr) (cs : List Expr) :
    (e.withChildren cs).isReference = e.isReference := by
  unfold withChildren
  split <;> rfl

variable {e x new : Expr} {path : List Nat}

/-- A tree that has a part is its own at that place. -/
theorem replaceAt_self (h : e.part? path = some x) : e.replaceAt path x = e := by
  induction path generalizing e with
  | nil => exact (Option.some.inj h).symm
  | cons i path ih =>
    obtain ⟨c, hc, hx⟩ := Option.bind_eq_some_iff.mp h
    have same : e.children.modify i (replaceAt · path x) = e.children := by
      rw [List.modify_eq_set_getElem?, hc]
      show e.children.set i (c.replaceAt path x) = e.children
      rw [ih hx]
      obtain ⟨hi, rfl⟩ := List.getElem?_eq_some_iff.mp hc
      exact List.set_getElem_self hi
    rw [replaceAt, same, withChildren_children]

theorem children_replaceAt (new e : Expr) (i : Nat) (path : List Nat) :
    (e.replaceAt (i :: path) new).children = e.children.modify i (replaceAt · path new) :=
  children_withChildren (List.length_modify ..)

theorem part?_replaceAt (h : e.part? path = some x) :
    (e.replaceAt path new).part? path = some new := by
  induction path generalizing e with
  | nil => rfl
  | cons i path ih =>
    obtain ⟨c, hc, hx⟩ := Option.bind_eq_some_iff.mp h
    rw [part?, children_replaceAt, List.getElem?_modify_eq, hc]
    exact ih hx

/-! ## Dependencies of parts -/

variable (symbols : SymbolTable) {id : SymbolId}

theorem mem_localReferences_iff_children (h : e.isReference = false) :
    id ∈ e.localReferences symbols ↔ ∃ c ∈ e.children, id ∈ c.localReferences symbols := by
  rw [localReferences_eq_flatMap symbols h, List.mem_flatMap]

/-- What stands elsewhere keeps its references; a literal in the place of the part has none. -/
theorem mem_localReferences_replaceAt (h : e.part? path = some x) :
    id ∈ (e.replaceAt path new).localReferences symbols ↔
      id ∈ (e.replaceAt path (null {})).localReferences symbols ∨
        id ∈ new.localReferences symbols := by
  induction path generalizing e with
  | nil =>
    show id ∈ new.localReferences symbols ↔ id ∈ [] ∨ id ∈ new.localReferences symbols
    simp
  | cons i path ih =>
    obtain ⟨c, hc, hx⟩ := Option.bind_eq_some_iff.mp h
    obtain ⟨hi, rfl⟩ := List.getElem?_eq_some_iff.mp hc
    have inner : e.isReference = false := by
      cases e with
      | var => simp [children] at hi
      | _ => rfl
    have outer (new : Expr) : (e.replaceAt (i :: path) new).isReference = false := by
      rw [replaceAt, isReference_withChildren, inner]
    have parted (new : Expr) : (e.replaceAt (i :: path) new).children =
        e.children.take i ++ e.children[i].replaceAt path new :: e.children.drop (i + 1) := by
      rw [children_replaceAt, List.modify_eq_take_cons_drop hi]
    rw [mem_localReferences_iff_children symbols (outer new),
      mem_localReferences_iff_children symbols (outer (null {})), parted, parted]
    simp only [List.mem_append, List.mem_cons, or_and_right, exists_or, exists_eq_left, ih hx]
    rw [or_right_comm (b := id ∈ new.localReferences symbols)]
    simp only [or_assoc]

theorem localReferences_of_partOf (h : PartOf x e) (hid : id ∈ x.localReferences symbols) :
    id ∈ e.localReferences symbols := by
  obtain ⟨n, name, part, bound⟩ := (mem_localReferences_iff symbols).mp hid
  exact (mem_localReferences_iff symbols).mpr ⟨n, name, part.trans h, bound⟩

end Expr

theorem SymbolTable.localAt?_eq_some_iff_boundTo? {table : SymbolTable} {index : Nat}
    {id : SymbolId} : table.localAt? index = some id ↔
      ∃ s, table.boundTo? index = some s ∧ s.kind = .localVar ∧ s.id = id := by
  simp only [localAt?, Option.map_eq_some_iff, Option.filter_eq_some_iff, Symbol.isLocal,
    beq_iff_eq, and_assoc]

namespace Expr

/-- The dependencies of a tree are the local variables that the references in it are bound to. What
a loop or a lambda declares adds none, nor does a name that is bound to something else or not at
all. A part depends on no more than the whole does, and where it is replaced, its own dependencies
are what changes. -/
theorem localDependencies_exact (symbols : SymbolTable) (e : Expr) :
    (∀ id, id ∈ e.localDependencies symbols ↔ ∃ n x s, PartOf (var n x) e ∧
      symbols.boundTo? n.index = some s ∧ s.kind = .localVar ∧ s.id = id) ∧
    (∀ n item index collection body id,
      id ∈ (loop n item index collection body).localDependencies symbols ↔
        id ∈ collection.localDependencies symbols ∨ id ∈ body.localDependencies symbols) ∧
    (∀ n params body id, id ∈ (lambda n params body).localDependencies symbols ↔
      id ∈ body.localDependencies symbols) ∧
    (∀ n x id, (∀ s, symbols.boundTo? n.index = some s → s.kind ≠ .localVar) →
      id ∉ (var n x).localDependencies symbols) ∧
    (∀ x, PartOf x e → ∀ id ∈ x.localDependencies symbols, id ∈ e.localDependencies symbols) ∧
    ∀ path x, e.part? path = some x → e.replaceAt path x = e ∧
      ∀ new, (e.replaceAt path new).part? path = some new ∧
        ∀ id, id ∈ (e.replaceAt path new).localDependencies symbols ↔
          id ∈ (e.replaceAt path (null {})).localDependencies symbols ∨
            id ∈ new.localDependencies symbols := by
  simp only [mem_localDependencies]
  refine ⟨fun id => ?_, ?_, ?_, ?_, ?_, ?_⟩
  · simp only [mem_localReferences_iff, SymbolTable.localAt?_eq_some_iff_boundTo?,
      exists_and_left]
  · intro n item index collection body id
    exact List.mem_append
  · exact fun n params body id => Iff.rfl
  · intro n x id other hid
    obtain ⟨s, bound, kind, -⟩ :=
      SymbolTable.localAt?_eq_some_iff_boundTo?.mp (Option.mem_toList.mp hid)
    exact other s bound kind
  · exact fun x part id hid => localReferences_of_partOf symbols part hid
  · intro path x hx
    refine ⟨replaceAt_self hx, fun new => ⟨part?_replaceAt hx, fun id => ?_⟩⟩
    exact mem_localReferences_replaceAt symbols hx

/-- `[for y in x: [y, x]]`, where both references to `x` share an index and `y` is not bound. -/
def sharedIndexLoop : Expr :=
  .loop {} ⟨{ index := 2 }, "y"⟩ none (.var {} "x")
    (.array {} [.var { index := 3 } "y", .var {} "x"])

theorem localDependencies_sharedIndexLoop : ∃ symbols : SymbolTable,
    symbols.boundTo? 0 = some ⟨⟨0⟩, "x", .localVar⟩ ∧
    PartOf (.var {} "x") sharedIndexLoop ∧ sharedIndexLoop.part? [1, 1] = some (.var {} "x") ∧
    ⟨0⟩ ∈ sharedIndexLoop.localDependencies symbols ∧
    ∀ new id, id ∈ (sharedIndexLoop.replaceAt [1, 1] new).localDependencies symbols ↔
      id ∈ (sharedIndexLoop.replaceAt [1, 1] (.null {})).localDependencies symbols ∨
        id ∈ new.localDependencies symbols := by
  let declared : SymbolTable := ({} : SymbolTable).declare "x" .localVar
  have known : declared.get? ⟨0⟩ = some ⟨⟨0⟩, "x", .localVar⟩ := rfl
  obtain ⟨symbols, bound⟩ := SymbolTable.exists_bind known 0
  have hsymbol : symbols.boundTo? 0 = some ⟨⟨0⟩, "x", .localVar⟩ := by
    rw [SymbolTable.boundTo?, SymbolTable.bindings_of_bind bound, if_pos rfl, Option.bind_some,
      SymbolTable.get?_congr (SymbolTable.declared_of_bind bound)]
    rfl
  have inside : PartOf (.var {} "x") sharedIndexLoop := .child List.mem_cons_self (.self _)
  have exact := localDependencies_exact symbols sharedIndexLoop
  refine ⟨symbols, hsymbol, inside, rfl, ?_, fun new id => ?_⟩
  · exact (exact.1 ⟨0⟩).mpr ⟨{}, "x", _, inside, hsymbol, rfl, rfl⟩
  · exact ((exact.2.2.2.2.2 [1, 1] _ rfl).2 new).2 id

end Expr

end Preflight
