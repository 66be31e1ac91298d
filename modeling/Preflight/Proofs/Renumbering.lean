import Mathlib.Logic.Equiv.Defs
import Preflight.Expr.Children
import Preflight.Program

/-! # Renumbered models

Symbols and nodes can be numbered in another way, in the trees and in all that is kept beside them.
What is found under a new number is what was found under the old one. -/

namespace Preflight
set_option autoImplicit false

/-! ## Tables -/

/-- The entries of a table under other keys. -/
def renameEntries {κ α : Type} [Ord κ] (key : κ → κ) (value : α → α)
    (table : Std.TreeMap κ α) : Std.TreeMap κ α :=
  .ofList (table.toList.map fun (k, v) => (key k, value v))

section

variable {κ α : Type} [Ord κ] [Std.TransOrd κ] [Std.LawfulEqOrd κ] {key : κ → κ}

theorem getElem?_renameEntries_of_eq_some (injective : Function.Injective key) (value : α → α)
    {table : Std.TreeMap κ α} {k : κ} {v : α} (h : table[k]? = some v) :
    (renameEntries key value table)[key k]? = some (value v) := by
  -- Different keys stay different, so no entry takes the place of another.
  have distinct : (table.toList.map fun (k, v) => (key k, value v)).Pairwise
      fun a b => ¬ compare a.1 b.1 = .eq := by
    rw [List.pairwise_map]
    refine Std.TreeMap.distinct_keys_toList.imp fun hne heq => hne ?_
    exact Std.compare_eq_iff_eq.mpr (injective (Std.compare_eq_iff_eq.mp heq))
  apply Std.TreeMap.getElem?_ofList_of_mem Std.ReflCmp.compare_self distinct
  exact List.mem_map_of_mem (Std.TreeMap.mem_toList_iff_getElem?_eq_some.mpr h)

theorem exists_of_mem_renameEntries {value : α → α} {table : Std.TreeMap κ α} {k' : κ}
    (h : k' ∈ renameEntries key value table) : ∃ k v, key k = k' ∧ table[k]? = some v := by
  classical
  rw [renameEntries, Std.TreeMap.mem_ofList, List.contains_iff_mem, List.map_map,
    List.mem_map] at h
  obtain ⟨⟨k, v⟩, mem, rfl⟩ := h
  exact ⟨k, v, rfl, Std.TreeMap.mem_toList_iff_getElem?_eq_some.mp mem⟩

theorem getElem?_renameEntries_eq_some_iff (injective : Function.Injective key) {value : α → α}
    {table : Std.TreeMap κ α} {k' : κ} {w : α} :
    (renameEntries key value table)[k']? = some w ↔
      ∃ k v, key k = k' ∧ value v = w ∧ table[k]? = some v := by
  constructor
  · intro h
    obtain ⟨k, v, rfl, hv⟩ := exists_of_mem_renameEntries
      (Std.TreeMap.isSome_getElem?_iff_mem.mp (Option.isSome_of_eq_some h))
    rw [getElem?_renameEntries_of_eq_some injective value hv] at h
    exact ⟨k, v, rfl, Option.some.inj h, hv⟩
  · rintro ⟨k, v, rfl, rfl, hv⟩
    exact getElem?_renameEntries_of_eq_some injective value hv

theorem getElem?_renameEntries (injective : Function.Injective key) (value : α → α)
    (table : Std.TreeMap κ α) (k : κ) :
    (renameEntries key value table)[key k]? = table[k]?.map value := by
  ext w
  rw [getElem?_renameEntries_eq_some_iff injective, Option.map_eq_some_iff]
  constructor
  · rintro ⟨k₀, v, hk, rfl, hv⟩
    exact ⟨v, injective hk ▸ hv, rfl⟩
  · rintro ⟨v, hv, rfl⟩
    exact ⟨k, v, rfl, rfl, hv⟩

end

namespace NodeTable

variable {α : Type}

/-- The values under other indices, in a table that is as long as they need. -/
def rename (index : Nat → Nat) (value : α → α) (table : NodeTable α) : NodeTable α :=
  let entries := renameEntries index value table.entries
  { length := (entries.maxKey?.map (· + 1)).getD 0
    entries
    lt_length i hi := by
      obtain ⟨last, hlast⟩ := Option.isSome_iff_exists.mp (Std.TreeMap.isSome_maxKey?_of_mem hi)
      have hle := (Std.TreeMap.maxKey?_eq_some_iff_mem_and_forall.mp hlast).2 i hi
      rw [hlast, Option.map_some, Option.getD_some]
      exact Nat.lt_succ_of_le (Nat.isLE_compare.mp hle) }

theorem get?_rename {index : Nat → Nat} (injective : Function.Injective index) (value : α → α)
    (table : NodeTable α) (i : Nat) :
    (table.rename index value).get? (index i) = (table.get? i).map value :=
  getElem?_renameEntries injective value table.entries i

theorem exists_of_get?_rename {index : Nat → Nat} (injective : Function.Injective index)
    {value : α → α} {table : NodeTable α} {i : Nat} {w : α}
    (h : (table.rename index value).get? i = some w) :
    ∃ j v, value v = w ∧ table.get? j = some v := by
  obtain ⟨j, v, -, hw, hv⟩ := (getElem?_renameEntries_eq_some_iff injective).mp h
  exact ⟨j, v, hw, hv⟩

end NodeTable

/-! ## Symbols -/

/-- New numbers for the symbols of a table, of which the declared ones stay declared, and new
indices for nodes. -/
structure Renumbering (table : SymbolTable) where
  symbol : Equiv.Perm SymbolId
  index : Nat → Nat
  declared_iff (id : SymbolId) :
    (symbol id).number < table.declared.size ↔ id.number < table.declared.size
  index_injective : Function.Injective index

namespace SymbolTable

variable {table : SymbolTable}

/-- The symbols in the order of their new numbers. -/
def renumber (table : SymbolTable) (ρ : Renumbering table) : SymbolTable where
  declared := .ofFn fun number : Fin table.declared.size =>
    let old := ρ.symbol.symm ⟨number⟩
    have declared : old.number < table.declared.size := by
      rw [← ρ.declared_iff, Equiv.apply_symm_apply]
      exact number.isLt
    table.declared[old.number]
  bindings := table.bindings.rename ρ.index ρ.symbol
  bound_declared i id h := by
    obtain ⟨j, id₀, rfl, hbound⟩ := NodeTable.exists_of_get?_rename ρ.index_injective h
    rw [Array.size_ofFn, ρ.declared_iff]
    exact table.bound_declared j id₀ hbound

variable (ρ : Renumbering table)

theorem get?_renumber (id : SymbolId) :
    (table.renumber ρ).get? (ρ.symbol id) =
      (table.get? id).map fun s => { s with id := ρ.symbol s.id } := by
  have hiff := ρ.declared_iff id
  have hback : ρ.symbol.symm ⟨(ρ.symbol id).number⟩ = id := ρ.symbol.symm_apply_apply id
  by_cases declared : id.number < table.declared.size
  · simp [get?, renumber, declared, hiff, hback]
  · simp [get?, renumber, declared, hiff]

theorem boundTo?_renumber (index : Nat) :
    (table.renumber ρ).boundTo? (ρ.index index) =
      (table.boundTo? index).map fun s => { s with id := ρ.symbol s.id } := by
  have hbound : (table.renumber ρ).bindings.get? (ρ.index index) = _ :=
    NodeTable.get?_rename ρ.index_injective ρ.symbol table.bindings index
  rw [boundTo?, hbound, boundTo?]
  cases table.bindings.get? index with
  | none => rfl
  | some id => exact get?_renumber ρ id

theorem localAt?_renumber (index : Nat) :
    (table.renumber ρ).localAt? (ρ.index index) = (table.localAt? index).map ρ.symbol := by
  rw [localAt?, boundTo?_renumber, localAt?]
  rcases table.boundTo? index with _ | symbol
  · rfl
  · cases h : symbol.isLocal <;> simp_all [Symbol.isLocal, Option.filter_some]

end SymbolTable

/-! ## Scopes and ancestors -/

def Scope.renumber (symbol : SymbolId → SymbolId) (scope : Scope) : Scope :=
  { scope with onto := scope.onto.map symbol }

def Scopes.renumber (symbol : SymbolId → SymbolId) (scopes : Scopes) : Scopes :=
  renameEntries symbol (Scope.renumber symbol) scopes

theorem Scopes.getElem?_renumber {symbol : SymbolId → SymbolId}
    (injective : Function.Injective symbol) (scopes : Scopes) (id : SymbolId) :
    (scopes.renumber symbol)[symbol id]? = scopes[id]?.map (Scope.renumber symbol) :=
  getElem?_renameEntries injective (Scope.renumber symbol) scopes id

def Ancestor.renumber (symbol : SymbolId → SymbolId) (ancestor : Ancestor) : Ancestor :=
  { ancestor with resource := symbol ancestor.resource }

def Ancestry.renumber (symbol : SymbolId → SymbolId) (ancestry : Ancestry) : Ancestry where
  chains := renameEntries symbol (List.map (Ancestor.renumber symbol)) ancestry.chains

theorem Ancestry.ancestors_renumber {symbol : SymbolId → SymbolId}
    (injective : Function.Injective symbol) (ancestry : Ancestry) (resource : SymbolId) :
    (ancestry.renumber symbol).ancestors (symbol resource) =
      (ancestry.ancestors resource).map (Ancestor.renumber symbol) := by
  have hchain : (ancestry.renumber symbol).chains[symbol resource]? = _ :=
    getElem?_renameEntries injective _ ancestry.chains resource
  rw [ancestors, Std.TreeMap.getD_eq_getD_getElem?, hchain, ancestors,
    Std.TreeMap.getD_eq_getD_getElem?]
  cases ancestry.chains[resource]? <;> rfl

theorem Ancestry.nearest?_renumber {symbol : SymbolId → SymbolId}
    (injective : Function.Injective symbol) (ancestry : Ancestry) (resource : SymbolId) :
    (ancestry.renumber symbol).nearest? (symbol resource) =
      (ancestry.nearest? resource).map (Ancestor.renumber symbol) := by
  rw [nearest?, ancestors_renumber injective, List.head?_map, nearest?]

/-! ## Declarations -/

theorem Expr.property?_map (r : Relabelling) (key : String) (e : Expr) :
    (e.map r).property? key = (e.property? key).map (Expr.map r) := by
  cases e with
  | object _ properties =>
    simp only [map, property?, mapProperties_eq_map, List.find?_map, Option.map_map]
    rfl
  | call _ base => cases base <;> rfl
  | _ => rfl

def LoopHead.map (r : Relabelling) (head : LoopHead) : LoopHead where
  span := r.span head.span
  item := head.item.map r
  index := head.index.map (·.map r)
  collection := head.collection.map r

namespace Body

def map (r : Relabelling) : Body → Body
  | object value => object (value.map r)
  | conditional span condition body => conditional (r.span span) (condition.map r) (body.map r)
  | loop head body => loop (head.map r) (body.map r)
  | error span => error (r.span span)

theorem loopHead?_map (r : Relabelling) (body : Body) :
    (body.map r).loopHead? = body.loopHead?.map (LoopHead.map r) := by
  cases body <;> rfl

theorem object?_map (r : Relabelling) (body : Body) :
    (body.map r).object? = body.object?.map (Expr.map r) := by
  induction body with
  | object value =>
    cases value with
    | call _ base => cases base <;> rfl
    | _ => rfl
  | conditional _ _ _ ih => exact ih
  | loop _ _ ih => exact ih
  | error => rfl

theorem property?_map (r : Relabelling) (key : String) (body : Body) :
    (body.map r).property? key = (body.property? key).map (Expr.map r) := by
  rw [property?, object?_map, property?]
  cases body.object? with
  | none => rfl
  | some object => exact object.property?_map r key

end Body

def Renumbering.relabelling {table : SymbolTable} (ρ : Renumbering table) : Relabelling where
  index := ρ.index

def ResourceDecl.renumber {table : SymbolTable} (ρ : Renumbering table) (r : ResourceDecl) :
    ResourceDecl :=
  { r with symbol := ρ.symbol r.symbol, body := r.body.map ρ.relabelling }

def ModuleDecl.renumber {table : SymbolTable} (ρ : Renumbering table) (d : ModuleDecl) :
    ModuleDecl :=
  { d with symbol := ρ.symbol d.symbol, body := d.body.map ρ.relabelling }

/-- The model in which every symbol and every node has its new number. -/
def Model.renumber (m : Model) (ρ : Renumbering m.symbols) : Model where
  program := { m.program with
    resources := m.program.resources.map (·.renumber ρ)
    modules := m.program.modules.map (·.renumber ρ) }
  symbols := m.symbols.renumber ρ
  ancestors := m.ancestors.renumber ρ.symbol
  resourceScopes := m.resourceScopes.renumber ρ.symbol
  moduleScopes := m.moduleScopes.renumber ρ.symbol

end Preflight
