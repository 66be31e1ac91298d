import Preflight.Symbol

/-! # Tables that are changed in place

The tables beside the tree, as they stand between two calls. A call that fails leaves behind what
it did before it failed. -/

namespace Preflight
set_option autoImplicit false

/-- Values by node index, in slots up to the largest index that was asked for. -/
structure SlotTable (α : Type) where
  slots : Array (Option α) := #[]

namespace SlotTable

variable {α : Type}

def length (table : SlotTable α) : Nat := table.slots.size

/-- Adds empty slots up to this index. -/
def ensure (table : SlotTable α) (index : Nat) : SlotTable α :=
  if table.slots.size ≤ index then
    { slots := table.slots ++ Array.replicate (index + 1 - table.slots.size) none }
  else table

def checkIndex (table : SlotTable α) (index : Nat) : Except NodeTable.OutOfBounds Nat :=
  if table.slots.size ≤ index then .error ⟨index, table.slots.size⟩ else .ok index

def set (index : Nat) (value : α) : EStateM NodeTable.OutOfBounds (SlotTable α) Unit := do
  match (← get).checkIndex index with
  | .error e => throw e
  | .ok n => modify fun table => { slots := table.slots.setIfInBounds n (some value) }

def getChecked (table : SlotTable α) (index : Nat) : Except NodeTable.OutOfBounds (Option α) := do
  let n ← table.checkIndex index
  return table.slots[n]?.join

/-- An index that has no slot is taken for an empty one. -/
def get? (table : SlotTable α) (index : Nat) : Option α := table.slots[index]?.join

inductive Operation (α : Type) where
  | ensure (index : Nat)
  | set (index : Nat) (value : α)
  | getChecked (index : Nat)
  | get (index : Nat)

/-- The table after an operation, whether that fails or not. -/
def apply (table : SlotTable α) : Operation α → SlotTable α
  | .ensure index => table.ensure index
  | .set index value =>
    match set index value table with
    | .ok _ table => table
    | .error _ table => table
  | .getChecked _ | .get _ => table

def after (operations : List (Operation α)) : SlotTable α := operations.foldl apply {}

end SlotTable

/-- Declared symbols, and the bindings of nodes to them. -/
structure SymbolStore where
  symbols : Array Symbol := #[]
  bindings : SlotTable SymbolId := {}

namespace SymbolStore

/-- The new symbol's number is how many there were before. Cast to 32 bits it is the same number, as
long as there are fewer than `2 ^ 32` of them. -/
def declare (store : SymbolStore) (name : String) (kind : SymbolKind) : SymbolId × SymbolStore :=
  let id := ⟨store.symbols.size⟩
  (id, { store with symbols := store.symbols.push { id, name, kind } })

def get? (store : SymbolStore) (id : SymbolId) : Option Symbol := store.symbols[id.number]?

/-- A change to the bindings alone. What it did is kept also if it fails. -/
def onBindings (change : EStateM NodeTable.OutOfBounds (SlotTable SymbolId) Unit) :
    EStateM BindError SymbolStore Unit := fun store =>
  match change store.bindings with
  | .ok () bindings => .ok () { store with bindings }
  | .error cause bindings => .error (.outOfBounds cause) { store with bindings }

def bind (index : Nat) (id : SymbolId) : EStateM BindError SymbolStore Unit := do
  if ((← get).get? id).isNone then
    throw (.undeclared id)
  modify fun store => { store with bindings := store.bindings.ensure index }
  onBindings (SlotTable.set index id)

def symbolInfo (store : SymbolStore) (index : Nat) : Option Symbol :=
  (store.bindings.get? index).bind store.get?

inductive Call where
  | declare (name : String) (kind : SymbolKind)
  | bind (index : Nat) (id : SymbolId)

/-- The store after a call, whether that fails or not. -/
def apply (store : SymbolStore) : Call → SymbolStore
  | .declare name kind => (store.declare name kind).2
  | .bind index id =>
    match bind index id store with
    | .ok _ store => store
    | .error _ store => store

def after (calls : List Call) : SymbolStore := calls.foldl apply {}

end SymbolStore

end Preflight
