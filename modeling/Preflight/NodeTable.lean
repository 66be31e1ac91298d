import Std.Data.TreeMap

/-! # Tables beside the tree

A table that keeps one value per node index. It has a length, which only grows; indices below it
may be read and written, and hold nothing until they are. -/

namespace Preflight
set_option autoImplicit false

theorem lt_of_mem_no_entries {α : Type} (i : Nat) (h : i ∈ ({} : Std.TreeMap Nat α)) : i < 0 :=
  absurd h Std.TreeMap.not_mem_emptyc

structure NodeTable (α : Type) where
  length : Nat := 0
  entries : Std.TreeMap Nat α := {}
  lt_length : ∀ i ∈ entries, i < length := by exact lt_of_mem_no_entries

namespace NodeTable

variable {α : Type}

structure OutOfBounds where
  index : Nat
  length : Nat
deriving DecidableEq, Repr

def OutOfBounds.message (e : OutOfBounds) : String :=
  s!"node_idx {e.index} out of bounds (nodes={e.length})"

def ensure (table : NodeTable α) (index : Nat) : NodeTable α where
  length := max table.length (index + 1)
  entries := table.entries
  lt_length i h := Nat.lt_of_lt_of_le (table.lt_length i h) (Nat.le_max_left ..)

def set (table : NodeTable α) (index : Nat) (value : α) : Except OutOfBounds (NodeTable α) :=
  if h : index < table.length then
    .ok {
      length := table.length
      entries := table.entries.insert index value
      lt_length i hi := by
        rcases Std.TreeMap.mem_insert.mp hi with hi | hi
        · exact Nat.compare_eq_eq.mp hi ▸ h
        · exact table.lt_length i hi }
  else
    .error ⟨index, table.length⟩

/-- The value at `index`, if any. Past the length there is none. -/
def get? (table : NodeTable α) (index : Nat) : Option α := table.entries[index]?

def getChecked (table : NodeTable α) (index : Nat) : Except OutOfBounds (Option α) :=
  if index < table.length then .ok (table.get? index) else .error ⟨index, table.length⟩

@[simp] theorem get?_empty (index : Nat) : ({} : NodeTable α).get? index = none := by
  simp [get?]

theorem get?_of_length_le {table : NodeTable α} {index : Nat} (h : table.length ≤ index) :
    table.get? index = none := by
  have hi : index ∉ table.entries := fun hi => Nat.not_lt.mpr h (table.lt_length index hi)
  simpa [get?] using hi

@[simp] theorem length_ensure (table : NodeTable α) (index : Nat) :
    (table.ensure index).length = max table.length (index + 1) := rfl

@[simp] theorem get?_ensure (table : NodeTable α) (index i : Nat) :
    (table.ensure index).get? i = table.get? i := rfl

theorem length_of_set {table table' : NodeTable α} {index : Nat} {value : α}
    (h : table.set index value = .ok table') : table'.length = table.length := by
  unfold set at h
  split at h
  · cases h
    rfl
  · cases h

theorem get?_of_set {table table' : NodeTable α} {index : Nat} {value : α}
    (h : table.set index value = .ok table') (i : Nat) :
    table'.get? i = if index = i then some value else table.get? i := by
  unfold set at h
  split at h
  · cases h
    simp [get?, Std.TreeMap.getElem?_insert]
  · cases h

theorem set_eq_error_iff {table : NodeTable α} {index : Nat} {value : α} {e : OutOfBounds} :
    table.set index value = .error e ↔ table.length ≤ index ∧ e = ⟨index, table.length⟩ := by
  unfold set
  split
  · simp only [reduceCtorEq, false_iff, not_and]
    omega
  · simp only [Except.error.injEq, eq_comm (b := e)]
    exact ⟨fun h => ⟨by omega, h⟩, And.right⟩

end NodeTable

end Preflight
