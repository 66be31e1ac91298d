import Preflight.Expr
import Preflight.NodeTable

/-! # Symbols

What the names of a program stand for, and which symbol each node is bound to. References and the
variables of loops and lambdas are bound under their node index. A name that stands for nothing
known, such as a built-in function, is not bound. -/

namespace Preflight
set_option autoImplicit false

structure SymbolId where
  number : Nat
deriving DecidableEq, Hashable, Repr, Inhabited

namespace SymbolId

instance : ToString SymbolId := ⟨fun id => s!"#{id.number}"⟩

instance : Ord SymbolId := ⟨compareOn number⟩

theorem compare_def (a b : SymbolId) : compare a b = compare a.number b.number := rfl

instance : Std.TransOrd SymbolId where
  eq_swap {a b} := by
    simp only [compare_def]
    exact Std.OrientedCmp.eq_swap
  isLE_trans {a b c} := by
    simp only [compare_def]
    exact Std.TransCmp.isLE_trans

instance : Std.LawfulEqOrd SymbolId where
  eq_of_compare {a b} h := by
    cases a
    cases b
    simpa [compare_def] using h
  compare_self {a} := by
    rw [compare_def]
    exact Std.ReflCmp.compare_self

end SymbolId

inductive SymbolKind where
  /-- A variable of a loop or a lambda. -/
  | localVar
  | resource | module | parameter | variable | output | function
deriving DecidableEq, Repr

structure Symbol where
  id : SymbolId
  name : String
  kind : SymbolKind
deriving DecidableEq, Repr

def Symbol.isLocal (s : Symbol) : Bool := s.kind == .localVar

theorem declared_of_no_bindings (i : Nat) (id : SymbolId)
    (h : ({} : NodeTable SymbolId).get? i = some id) :
    id.number < (#[] : Array (String × SymbolKind)).size := by
  simp at h

/-- The names and kinds of the declared symbols, which are numbered in order of declaration, and
the bindings of nodes to them. -/
structure SymbolTable where
  declared : Array (String × SymbolKind) := #[]
  bindings : NodeTable SymbolId := {}
  bound_declared : ∀ i id, bindings.get? i = some id → id.number < declared.size := by
    exact declared_of_no_bindings

inductive BindError where
  | undeclared (id : SymbolId)
  | outOfBounds (cause : NodeTable.OutOfBounds)
deriving DecidableEq, Repr

def BindError.message : BindError → String
  | undeclared id => s!"symbol {id.number} is not declared"
  | outOfBounds cause => cause.message

namespace SymbolTable

def nextId (table : SymbolTable) : SymbolId := ⟨table.declared.size⟩

def declare (table : SymbolTable) (name : String) (kind : SymbolKind) : SymbolTable where
  declared := table.declared.push (name, kind)
  bindings := table.bindings
  bound_declared i id h := by
    have := table.bound_declared i id h
    simp
    omega

def get? (table : SymbolTable) (id : SymbolId) : Option Symbol :=
  table.declared[id.number]?.map fun (name, kind) => { id, name, kind }

def symbols (table : SymbolTable) : List Symbol :=
  table.declared.toList.zipIdx.map fun ((name, kind), number) => { id := ⟨number⟩, name, kind }

/-- Binds a node to a declared symbol, in place of what it was bound to. -/
def bind (table : SymbolTable) (index : Nat) (id : SymbolId) : Except BindError SymbolTable :=
  if declared : id.number < table.declared.size then
    match h : (table.bindings.ensure index).set index id with
    | .error cause => .error (.outOfBounds cause)
    | .ok bindings => .ok {
        declared := table.declared
        bindings
        bound_declared := fun i id' h' => by
          rw [NodeTable.get?_of_set h, NodeTable.get?_ensure] at h'
          split at h'
          · cases h'
            exact declared
          · exact table.bound_declared i id' h' }
  else
    .error (.undeclared id)

def boundTo? (table : SymbolTable) (index : Nat) : Option Symbol :=
  (table.bindings.get? index).bind table.get?

def localAt? (table : SymbolTable) (index : Nat) : Option SymbolId :=
  ((table.boundTo? index).filter Symbol.isLocal).map Symbol.id

def referencedLocal? (table : SymbolTable) : Expr → Option SymbolId
  | .var node _ => table.localAt? node.index
  | _ => none

def declaredLocal? (table : SymbolTable) (v : LocalVar) : Option SymbolId :=
  table.localAt? v.node.index

/-- The name of a symbol, or its number where it was not declared. -/
def nameOf (table : SymbolTable) (id : SymbolId) : String :=
  match table.get? id with
  | some symbol => symbol.name
  | none => toString id

theorem get?_declare (table : SymbolTable) (name : String) (kind : SymbolKind) (id : SymbolId) :
    (table.declare name kind).get? id =
      if id = table.nextId then some ⟨id, name, kind⟩ else table.get? id := by
  rcases id with ⟨n⟩
  simp only [declare, get?, nextId, Array.getElem?_push, SymbolId.mk.injEq]
  split <;> simp_all

theorem id_of_get? {table : SymbolTable} {id : SymbolId} {s : Symbol} (h : table.get? id = some s) :
    s.id = id := by
  obtain ⟨_, _, rfl⟩ := Option.map_eq_some_iff.mp h
  rfl

theorem localAt?_eq_some_iff {table : SymbolTable} {index : Nat} {id : SymbolId} :
    table.localAt? index = some id ↔
      table.bindings.get? index = some id ∧ ∃ s, table.get? id = some s ∧ s.isLocal := by
  simp only [localAt?, boundTo?, Option.map_eq_some_iff, Option.filter_eq_some_iff,
    Option.bind_eq_some_iff]
  constructor
  · rintro ⟨s, ⟨⟨bound, hbound, hs⟩, hlocal⟩, rfl⟩
    rw [id_of_get? hs]
    exact ⟨hbound, s, hs, hlocal⟩
  · rintro ⟨hbound, s, hs, hlocal⟩
    exact ⟨s, ⟨⟨id, hbound, hs⟩, hlocal⟩, id_of_get? hs⟩

/-- Binding fails for undeclared symbols only: the table is as long as the node needs. -/
theorem bind_eq_error_iff {table : SymbolTable} {index : Nat} {id : SymbolId} {e : BindError} :
    table.bind index id = .error e ↔ table.get? id = none ∧ e = .undeclared id := by
  unfold bind get?
  split
  next declared =>
    split
    next cause h =>
      rw [NodeTable.set_eq_error_iff, NodeTable.length_ensure] at h
      omega
    · simp [declared]
  next undeclared => simp [undeclared, eq_comm]

end SymbolTable

end Preflight
