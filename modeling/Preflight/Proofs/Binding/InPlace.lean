import Mathlib.Data.List.Induction
import Preflight.InPlace
import Preflight.Proofs.Binding

/-! # What tables in place keep

Whatever was called before, and whether it failed or not: symbols are numbered in the order of their
declarations, and a node is bound to what it was last bound to with success. Slots for larger
indices change nothing at the smaller ones, so the check of the index before a binding is written
never fails. -/

namespace Preflight
set_option autoImplicit false

theorem get_bind {ε σ α : Type} (f : σ → EStateM ε σ α) (s : σ) : (get >>= f) s = f s s := rfl

/-! ## Slots -/

namespace SlotTable

variable {α : Type}

theorem length_ensure (table : SlotTable α) (index : Nat) :
    (table.ensure index).length = max table.length (index + 1) := by
  unfold ensure length
  split
  · simp
    omega
  · omega

theorem get?_ensure (table : SlotTable α) (index i : Nat) :
    (table.ensure index).get? i = table.get? i := by
  unfold ensure get?
  split
  · rw [Array.getElem?_append]
    split
    · rfl
    next hi =>
      rw [Array.getElem?_eq_none (Nat.le_of_not_lt hi), Array.getElem?_replicate]
      split <;> rfl
  · rfl

theorem get?_of_length_le {table : SlotTable α} {index : Nat} (h : table.length ≤ index) :
    table.get? index = none := by
  rw [get?, Array.getElem?_eq_none h]
  rfl

theorem set_eq (index : Nat) (value : α) (table : SlotTable α) : set index value table =
    match table.checkIndex index with
    | .error e => .error e table
    | .ok n => .ok () { slots := table.slots.setIfInBounds n (some value) } := by
  rw [set, get_bind]
  cases table.checkIndex index <;> rfl

/-- An index without a slot is refused, and nothing is written. -/
theorem set_of_length_le {table : SlotTable α} {index : Nat} (h : table.length ≤ index)
    (value : α) : set index value table = .error ⟨index, table.length⟩ table := by
  have hcheck : table.checkIndex index = .error ⟨index, table.length⟩ := if_pos h
  rw [set_eq, hcheck]

theorem set_of_lt_length {table : SlotTable α} {index : Nat} (h : index < table.length)
    (value : α) : set index value table =
      .ok () { slots := table.slots.setIfInBounds index (some value) } := by
  have hcheck : table.checkIndex index = .ok index := if_neg (Nat.not_le_of_lt h)
  rw [set_eq, hcheck]

theorem set_eq_error_iff {table table' : SlotTable α} {index : Nat} {value : α}
    {e : NodeTable.OutOfBounds} : set index value table = .error e table' ↔
      table.length ≤ index ∧ e = ⟨index, table.length⟩ ∧ table' = table := by
  by_cases h : table.length ≤ index
  · rw [set_of_length_le h, and_iff_right h]
    constructor
    · rintro ⟨⟩
      exact ⟨rfl, rfl⟩
    · rintro ⟨rfl, rfl⟩
      rfl
  · rw [set_of_lt_length (Nat.lt_of_not_le h)]
    exact iff_of_false nofun fun hsome => h hsome.1

theorem get?_setIfInBounds {table : SlotTable α} {index : Nat} (h : index < table.length)
    (value : α) (i : Nat) :
    get? { slots := table.slots.setIfInBounds index (some value) } i =
      if index = i then some value else table.get? i := by
  rw [get?, Array.getElem?_setIfInBounds]
  split
  next heq =>
    rw [if_pos (heq ▸ h)]
    rfl
  next => rfl

theorem getChecked_eq (table : SlotTable α) (index : Nat) : table.getChecked index =
    if table.length ≤ index then .error ⟨index, table.length⟩ else .ok (table.get? index) := by
  unfold getChecked checkIndex length
  split <;> rfl

/-- The indices that room was made for. -/
def ensured (operations : List (Operation α)) : List Nat :=
  operations.filterMap fun
    | .ensure index => some index
    | _ => none

/-- The largest of these indices and one more, if that is more than `length`. -/
def reach (length : Nat) (indices : List Nat) : Nat :=
  indices.foldl (fun length index => max length (index + 1)) length

theorem length_apply (table : SlotTable α) (operation : Operation α) :
    (table.apply operation).length = reach table.length (ensured [operation]) := by
  cases operation with
  | ensure index => exact length_ensure table index
  | set index value =>
    by_cases h : table.length ≤ index
    · rw [apply, set_of_length_le h]
      rfl
    · rw [apply, set_of_lt_length (Nat.lt_of_not_le h)]
      exact Array.size_setIfInBounds
  | getChecked index => rfl
  | get index => rfl

theorem length_foldl_apply (operations : List (Operation α)) (table : SlotTable α) :
    (operations.foldl apply table).length = reach table.length (ensured operations) := by
  induction operations generalizing table with
  | nil => rfl
  | cons operation operations ih =>
    have hensured : ensured (operation :: operations) = ensured [operation] ++ ensured operations :=
      List.filterMap_append (l := [operation])
    rw [List.foldl_cons, ih, length_apply, hensured, reach, reach, reach, List.foldl_append]

theorem reach_spec (length : Nat) (indices : List Nat) : length ≤ reach length indices ∧
    (∀ index ∈ indices, index < reach length indices) ∧
    (reach length indices = length ∨ ∃ index ∈ indices, reach length indices = index + 1) := by
  induction indices generalizing length with
  | nil => exact ⟨Nat.le_refl _, nofun, .inl rfl⟩
  | cons first indices ih =>
    obtain ⟨hle, hall, hsome⟩ := ih (max length (first + 1))
    rw [reach, List.foldl_cons, ← reach]
    refine ⟨Nat.le_trans (Nat.le_max_left _ _) hle, ?_, ?_⟩
    · rw [List.forall_mem_cons]
      exact ⟨Nat.le_trans (Nat.le_max_right _ _) hle, hall⟩
    · rcases hsome with hsame | ⟨index, hindex, hreach⟩
      · rcases Nat.le_total length (first + 1) with hfirst | hlength
        · exact .inr ⟨first, List.mem_cons_self, by rw [hsame, Nat.max_eq_right hfirst]⟩
        · exact .inl (by rw [hsame, Nat.max_eq_left hlength])
      · exact .inr ⟨index, List.mem_cons_of_mem _ hindex, hreach⟩

/-- What holds of a table after these operations. -/
structure Keeps (operations : List (Operation α)) (table : SlotTable α) : Prop where
  /-- The length is the largest index that room was made for, and one more. -/
  ensured_lt : ∀ index ∈ ensured operations, index < table.length
  length_eq : table.length = 0 ∨ ∃ index ∈ ensured operations, table.length = index + 1
  grows : ∀ operation, table.length ≤ (table.apply operation).length
  ensure : ∀ index i, (table.ensure index).get? i = table.get? i
  set : ∀ index value e table', set index value table = .error e table' ↔
    table.length ≤ index ∧ e = ⟨index, table.length⟩ ∧ table' = table
  getChecked : ∀ index e, table.getChecked index = .error e ↔
    table.length ≤ index ∧ e = ⟨index, table.length⟩
  get_of_ok : ∀ index value, table.getChecked index = .ok value → table.get? index = value
  get_of_error : ∀ index e, table.getChecked index = .error e → table.get? index = none

theorem keeps_after (operations : List (Operation α)) : Keeps operations (after operations) := by
  have hlength : (after operations).length = reach 0 (ensured operations) :=
    length_foldl_apply operations {}
  obtain ⟨-, hall, hsome⟩ := reach_spec 0 (ensured operations)
  rw [← hlength] at hall hsome
  refine ⟨hall, hsome, ?_, get?_ensure _, fun _ _ _ _ => set_eq_error_iff, ?_, ?_, ?_⟩
  · intro operation
    rw [length_apply]
    exact (reach_spec _ _).1
  · intro index e
    rw [getChecked_eq]
    split
    next h => simp [h, eq_comm]
    next h => simp [h]
  · intro index value h
    rw [getChecked_eq] at h
    split at h
    next => cases h
    next => exact Except.ok.inj h
  · intro index e h
    rw [getChecked_eq] at h
    split at h
    next hlength => exact get?_of_length_le hlength
    next => cases h

end SlotTable

/-! ## Symbols -/

namespace SymbolStore

variable {store : SymbolStore} {calls : List Call} {call : Call} {index : Nat} {id : SymbolId}

/-- What was declared, in order. -/
def declarations (calls : List Call) : List (String × SymbolKind) :=
  calls.filterMap fun
    | .declare name kind => some (name, kind)
    | .bind _ _ => none

/-- The call binds the index to the symbol, with success. -/
def Binds (store : SymbolStore) (call : Call) (index : Nat) (id : SymbolId) : Prop :=
  call = .bind index id ∧ ∃ store', bind index id store = .ok () store'

def BindsAt (calls : List Call) (k index : Nat) (id : SymbolId) : Prop :=
  ∃ call, calls[k]? = some call ∧ Binds (after (calls.take k)) call index id

/-- The last call that bound the index with success bound it to this symbol. -/
def LastBound (calls : List Call) (index : Nat) (id : SymbolId) : Prop :=
  ∃ k, BindsAt calls k index id ∧ ∀ later > k, ∀ other, ¬BindsAt calls later index other

theorem after_concat (calls : List Call) (call : Call) :
    after (calls ++ [call]) = (after calls).apply call := by
  rw [after, List.foldl_append]
  rfl

theorem lt_length_of_bindsAt {k : Nat} (h : BindsAt calls k index id) : k < calls.length := by
  obtain ⟨call, hcall, -⟩ := h
  exact (List.getElem?_eq_some_iff.mp hcall).1

theorem bindsAt_concat {k : Nat} : BindsAt (calls ++ [call]) k index id ↔
    BindsAt calls k index id ∨ k = calls.length ∧ Binds (after calls) call index id := by
  rcases Nat.lt_trichotomy k calls.length with hlt | rfl | hgt
  · have hne : k ≠ calls.length := Nat.ne_of_lt hlt
    rw [BindsAt, List.getElem?_append_left hlt, List.take_append_of_le_length (Nat.le_of_lt hlt)]
    simp [BindsAt, hne]
  · have hnot : ¬BindsAt calls calls.length index id :=
      fun h => Nat.lt_irrefl _ (lt_length_of_bindsAt h)
    rw [or_iff_right hnot, BindsAt, List.take_left' rfl]
    simp
  · have hne : k ≠ calls.length := Nat.ne_of_gt hgt
    have hnot : ¬BindsAt calls k index id := fun h => Nat.lt_asymm hgt (lt_length_of_bindsAt h)
    refine iff_of_false (fun h => ?_) (fun h => h.elim hnot fun h => hne h.1)
    have hlt := lt_length_of_bindsAt h
    rw [List.length_append, List.length_singleton] at hlt
    omega

/-- One more call either binds the index itself, or leaves it to the calls before. -/
theorem lastBound_concat : LastBound (calls ++ [call]) index id ↔
    Binds (after calls) call index id ∨
      (∀ other, ¬Binds (after calls) call index other) ∧ LastBound calls index id := by
  constructor
  · rintro ⟨k, hk, hlast⟩
    rcases bindsAt_concat.mp hk with hk | ⟨-, hbinds⟩
    · refine .inr ⟨fun other hother => ?_, k, hk, fun later hlater other hother => ?_⟩
      · have hat := bindsAt_concat.mpr (.inr ⟨rfl, hother⟩)
        exact hlast calls.length (lt_length_of_bindsAt hk) other hat
      · exact hlast later hlater other (bindsAt_concat.mpr (.inl hother))
    · exact .inl hbinds
  · rintro (hbinds | ⟨hnone, k, hk, hlast⟩)
    · refine ⟨calls.length, bindsAt_concat.mpr (.inr ⟨rfl, hbinds⟩), ?_⟩
      intro later hlater other hother
      rcases bindsAt_concat.mp hother with hother | ⟨heq, -⟩
      · exact Nat.lt_asymm hlater (lt_length_of_bindsAt hother)
      · exact Nat.ne_of_gt hlater heq
    · refine ⟨k, bindsAt_concat.mpr (.inl hk), ?_⟩
      intro later hlater other hother
      rcases bindsAt_concat.mp hother with hother | ⟨-, hother⟩
      · exact hlast later hlater other hother
      · exact hnone other hother

/-! ### One call -/

theorem onBindings_set {index : Nat} (h : index < store.bindings.length) (id : SymbolId) :
    onBindings (SlotTable.set index id) store = .ok () { store with
      bindings := { slots := store.bindings.slots.setIfInBounds index (some id) } } := by
  rw [onBindings, SlotTable.set_of_lt_length h]

/-- An undeclared symbol is refused before anything is changed. -/
theorem bind_eq (index : Nat) (id : SymbolId) (store : SymbolStore) : bind index id store =
    if (store.get? id).isNone then .error (.undeclared id) store
    else onBindings (SlotTable.set index id)
      { store with bindings := store.bindings.ensure index } := by
  rw [bind, get_bind]
  cases store.get? id <;> rfl

theorem bind_of_none (h : store.get? id = none) (index : Nat) :
    bind index id store = .error (.undeclared id) store := by
  rw [bind_eq, h]
  rfl

/-- The index has a slot by then, so the symbol is written. -/
theorem bind_of_some {symbol : Symbol} (h : store.get? id = some symbol) (index : Nat) :
    ∃ bindings, bind index id store = .ok () { store with bindings } ∧
      ∀ i, bindings.get? i = if index = i then some id else store.bindings.get? i := by
  have hslot : index < (store.bindings.ensure index).length := by
    rw [SlotTable.length_ensure]
    exact Nat.le_max_right _ _
  let slots := (store.bindings.ensure index).slots.setIfInBounds index (some id)
  refine ⟨{ slots }, ?_, fun i => ?_⟩
  · rw [bind_eq, h]
    exact onBindings_set hslot id
  · rw [SlotTable.get?_setIfInBounds hslot, SlotTable.get?_ensure]

theorem bind_eq_error_iff {e : BindError} {store' : SymbolStore} :
    bind index id store = .error e store' ↔
      store.get? id = none ∧ e = .undeclared id ∧ store' = store := by
  cases h : store.get? id with
  | none =>
    rw [bind_of_none h, and_iff_right rfl]
    constructor
    · rintro ⟨⟩
      exact ⟨rfl, rfl⟩
    · rintro ⟨rfl, rfl⟩
      rfl
  | some symbol =>
    obtain ⟨bindings, hbind, -⟩ := bind_of_some h index
    rw [hbind]
    exact iff_of_false nofun nofun

theorem not_binds_declare {name : String} {kind : SymbolKind} :
    ¬Binds store (.declare name kind) index id := by
  rintro ⟨h, -⟩
  cases h

theorem binds_of_some {symbol : Symbol} (h : store.get? id = some symbol) {i : Nat}
    {other : SymbolId} : Binds store (.bind index id) i other ↔ index = i ∧ id = other := by
  obtain ⟨bindings, hbind, -⟩ := bind_of_some h index
  constructor
  · rintro ⟨heq, -⟩
    cases heq
    exact ⟨rfl, rfl⟩
  · rintro ⟨rfl, rfl⟩
    exact ⟨rfl, _, hbind⟩

theorem not_binds_of_none (h : store.get? id = none) {i : Nat} {other : SymbolId} :
    ¬Binds store (.bind index id) i other := by
  rintro ⟨heq, store', hbind⟩
  cases heq
  rw [bind_of_none h] at hbind
  cases hbind

theorem apply_bind_of_none (h : store.get? id = none) :
    store.apply (.bind index id) = store := by
  rw [apply, bind_of_none h]

theorem symbols_apply_bind : (store.apply (.bind index id)).symbols = store.symbols := by
  cases h : store.get? id with
  | none => rw [apply_bind_of_none h]
  | some symbol =>
    obtain ⟨bindings, hbind, -⟩ := bind_of_some h index
    rw [apply, hbind]

/-! ### All calls -/

theorem symbols_after (calls : List Call) : (after calls).symbols.toList =
    (declarations calls).zipIdx.map fun ((name, kind), number) => ⟨⟨number⟩, name, kind⟩ := by
  induction calls using List.reverseRecOn with
  | nil => rfl
  | append_singleton calls call ih =>
    have hdeclarations : declarations (calls ++ [call]) =
        declarations calls ++ declarations [call] :=
      List.filterMap_append
    rw [after_concat, hdeclarations]
    cases call with
    | declare name kind =>
      have hsize : (after calls).symbols.size = (declarations calls).length := by
        rw [← Array.length_toList, ih, List.length_map, List.length_zipIdx]
      show ((after calls).symbols.push _).toList = _
      rw [Array.toList_push, ih, hsize]
      simp [declarations, List.zipIdx_append]
    | bind index id =>
      rw [symbols_apply_bind, ih]
      simp [declarations]

theorem size_symbols_after (calls : List Call) :
    (after calls).symbols.size = (declarations calls).length := by
  rw [← Array.length_toList, symbols_after, List.length_map, List.length_zipIdx]

theorem get?_after (calls : List Call) (id : SymbolId) : (after calls).get? id =
    (declarations calls)[id.number]?.map fun (name, kind) => ⟨id, name, kind⟩ := by
  rw [get?, ← Array.getElem?_toList, symbols_after, List.getElem?_map, List.getElem?_zipIdx,
    Option.map_map, Nat.zero_add]
  rfl

theorem get?_after_eq_none_iff : (after calls).get? id = none ↔
    (declarations calls).length ≤ id.number := by
  rw [get?_after, Option.map_eq_none_iff, List.getElem?_eq_none_iff]

/-- The bindings hold what each index was bound to last. -/
theorem bindings_after (calls : List Call) (index : Nat) (id : SymbolId) :
    (after calls).bindings.get? index = some id ↔ LastBound calls index id := by
  induction calls using List.reverseRecOn with
  | nil =>
    refine iff_of_false nofun ?_
    rintro ⟨k, hk, -⟩
    exact Nat.not_lt_zero k (lt_length_of_bindsAt hk)
  | append_singleton calls call ih =>
    rw [after_concat, lastBound_concat, ← ih]
    cases call with
    | declare name kind => simp [not_binds_declare, apply, declare]
    | bind index' id' =>
      cases h : (after calls).get? id' with
      | none => simp [not_binds_of_none h, apply_bind_of_none h]
      | some symbol =>
        obtain ⟨bindings, hbind, hget⟩ := bind_of_some h index'
        simp only [binds_of_some h]
        rw [apply, hbind, hget]
        by_cases heq : index' = index
        · simp [heq]
        · simp [heq]

/-- What is bound is declared: it was when it was bound. -/
theorem exists_get?_of_lastBound (h : LastBound calls index id) :
    ∃ symbol, (after calls).get? id = some symbol := by
  obtain ⟨k, ⟨call, -, -, store', hbind⟩, -⟩ := h
  have hthen : ¬(declarations (calls.take k)).length ≤ id.number := by
    rw [← get?_after_eq_none_iff]
    intro hnone
    rw [bind_of_none hnone] at hbind
    cases hbind
  have hmore : (declarations (calls.take k)).length ≤ (declarations calls).length :=
    ((List.take_sublist k calls).filterMap _).length_le
  rw [← Option.ne_none_iff_exists', ne_eq, get?_after_eq_none_iff]
  omega

theorem symbolInfo_after_of_lastBound (h : LastBound calls index id) :
    (after calls).symbolInfo index = (after calls).get? id := by
  rw [symbolInfo, (bindings_after calls index id).mpr h, Option.bind_some]

theorem symbolInfo_after_of_not (h : ∀ id, ¬LastBound calls index id) :
    (after calls).symbolInfo index = none := by
  have hnone : (after calls).bindings.get? index = none := by
    refine Option.eq_none_iff_forall_ne_some.mpr fun id hid => ?_
    exact h id ((bindings_after calls index id).mp hid)
  rw [symbolInfo, hnone, Option.bind_none]

end SymbolStore

/-! ### The table that is handed on -/

namespace SymbolTable

/-- The table after a call. A call that fails hands no table on, so the one before is kept. -/
def apply (table : SymbolTable) : SymbolStore.Call → SymbolTable
  | .declare name kind => table.declare name kind
  | .bind index id =>
    match table.bind index id with
    | .ok table => table
    | .error _ => table

def after (calls : List SymbolStore.Call) : SymbolTable := calls.foldl apply {}

end SymbolTable

namespace SymbolStore

variable {store : SymbolStore} {calls : List Call} {index : Nat} {id : SymbolId}

/-- Both answer alike. -/
structure Agrees (store : SymbolStore) (table : SymbolTable) : Prop where
  nextId : store.symbols.size = table.declared.size
  get? : ∀ id, store.get? id = table.get? id
  bindings : ∀ index, store.bindings.get? index = table.bindings.get? index

namespace Agrees

variable {table : SymbolTable}

theorem symbolInfo (h : store.Agrees table) (index : Nat) :
    store.symbolInfo index = table.boundTo? index := by
  rw [SymbolStore.symbolInfo, SymbolTable.boundTo?, h.bindings]
  exact congrArg (Option.bind _) (funext h.get?)

theorem apply (h : store.Agrees table) (call : Call) :
    (store.apply call).Agrees (table.apply call) := by
  cases call with
  | declare name kind =>
    refine ⟨?_, fun id => ?_, h.bindings⟩
    · show (store.symbols.push _).size = (table.declared.push _).size
      rw [Array.size_push, Array.size_push, h.nextId]
    · show (store.symbols.push ⟨⟨store.symbols.size⟩, name, kind⟩)[id.number]? =
        (table.declare name kind).get? id
      rw [SymbolTable.get?_declare, Array.getElem?_push, SymbolTable.nextId, ← h.nextId]
      obtain ⟨number⟩ := id
      by_cases hnext : number = store.symbols.size
      · rw [if_pos hnext, if_pos (congrArg SymbolId.mk hnext), hnext]
      · have hid : SymbolId.mk number ≠ ⟨store.symbols.size⟩ := by simpa using hnext
        rw [if_neg hnext, if_neg hid]
        exact h.get? ⟨number⟩
  | bind index id =>
    cases hget : store.get? id with
    | none =>
      have herror : table.bind index id = .error (.undeclared id) :=
        SymbolTable.bind_eq_error_iff.mpr ⟨(h.get? id).symm.trans hget, rfl⟩
      rw [apply_bind_of_none hget, SymbolTable.apply, herror]
      exact h
    | some symbol =>
      obtain ⟨bindings, hbind, hbindings⟩ := bind_of_some hget index
      obtain ⟨table', htable⟩ := SymbolTable.exists_bind ((h.get? id).symm.trans hget) index
      have hdeclared := SymbolTable.declared_of_bind htable
      rw [SymbolStore.apply, hbind, SymbolTable.apply, htable]
      refine ⟨?_, fun id' => ?_, fun i => ?_⟩
      · rw [hdeclared]
        exact h.nextId
      · rw [SymbolTable.get?_congr hdeclared]
        exact h.get? id'
      · rw [SymbolTable.bindings_of_bind htable, ← h.bindings]
        exact hbindings i

end Agrees

theorem agrees_after (calls : List Call) : (after calls).Agrees (SymbolTable.after calls) := by
  have agrees : ({} : SymbolStore).Agrees {} := ⟨rfl, fun _ => rfl, fun _ => by simp; rfl⟩
  unfold after SymbolTable.after
  generalize ({} : SymbolStore) = store, ({} : SymbolTable) = table at agrees ⊢
  induction calls generalizing store table with
  | nil => exact agrees
  | cons call calls ih => exact ih _ _ (agrees.apply call)

/-! ### What is answered -/

/-- What holds of the store after these calls. -/
structure Answers (calls : List Call) (store : SymbolStore) : Prop where
  /-- The next symbol gets the number of those declared so far. -/
  declare : ∀ name kind, (store.declare name kind).1 = ⟨(declarations calls).length⟩
  get? : ∀ id, store.get? id =
    (declarations calls)[id.number]?.map fun (name, kind) => ⟨id, name, kind⟩
  bind : ∀ index id e store', SymbolStore.bind index id store = .error e store' ↔
    (declarations calls).length ≤ id.number ∧ e = .undeclared id ∧ store' = store
  bound : ∀ index id, LastBound calls index id →
    ∃ symbol, store.get? id = some symbol ∧ store.symbolInfo index = some symbol
  unbound : ∀ index, (∀ id, ¬LastBound calls index id) → store.symbolInfo index = none
  /-- A table that is handed on from call to call answers the same. -/
  handedOn : ∀ index, store.symbolInfo index = (SymbolTable.after calls).boundTo? index

theorem answers_after (calls : List Call) : Answers calls (after calls) where
  declare _ _ := congrArg SymbolId.mk (size_symbols_after calls)
  get? := get?_after calls
  bind index id e store' := by
    rw [bind_eq_error_iff, get?_after_eq_none_iff]
  bound index id h := by
    obtain ⟨symbol, hsymbol⟩ := exists_get?_of_lastBound h
    exact ⟨symbol, hsymbol, (symbolInfo_after_of_lastBound h).trans hsymbol⟩
  unbound _ := symbolInfo_after_of_not
  handedOn := (agrees_after calls).symbolInfo

end SymbolStore

/-- Whatever was called before, with success or not, the symbols answer as a partial map from
indices to declared symbols, and the slots as one that is told how far it reaches. -/
theorem inPlace_answers :
    (∀ calls : List SymbolStore.Call, SymbolStore.Answers calls (SymbolStore.after calls)) ∧
    ∀ (α : Type) (operations : List (SlotTable.Operation α)),
      SlotTable.Keeps operations (SlotTable.after operations) :=
  ⟨SymbolStore.answers_after, fun _ => SlotTable.keeps_after⟩

/-- A call that fails makes no room. -/
example : (SymbolStore.after [.declare "x" .variable, .bind 5 ⟨0⟩, .bind 9 ⟨1⟩]).symbolInfo 5 =
      some ⟨⟨0⟩, "x", .variable⟩ ∧
    (SymbolStore.after [.declare "x" .variable, .bind 5 ⟨0⟩, .bind 9 ⟨1⟩]).bindings.length = 6 := by
  decide

end Preflight
