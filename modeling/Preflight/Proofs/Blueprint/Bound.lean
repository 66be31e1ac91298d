import Preflight.Proofs.Binding
import Preflight.Proofs.Blueprint.Written

/-! # Built programs are bound

Before binding, the declared names stand for symbols and no node is bound. So every name in a
built program is bound as its place in the text demands. -/

namespace Preflight
set_option autoImplicit false

namespace Blueprint

variable (b : Blueprint)

theorem declared_foldl (globals : List (String × SymbolKind)) (t : SymbolTable) :
    (globals.foldl (fun table (name, kind) => table.declare name kind) t).declared =
      t.declared ++ globals.toArray := by
  induction globals generalizing t with
  | nil => simp
  | cons g globals ih =>
    rw [List.foldl_cons, ih]
    simp [SymbolTable.declare]

theorem declared_symbols : b.symbols.declared = b.globals.toArray := by
  rw [symbols, declared_foldl]
  simp

theorem bindings_symbols (i : Nat) : b.symbols.bindings.get? i = none := by
  have keep (globals : List (String × SymbolKind)) (t : SymbolTable) :
      (globals.foldl (fun table (name, kind) => table.declare name kind) t).bindings =
        t.bindings := by
    induction globals generalizing t with
    | nil => rfl
    | cons g globals ih => exact ih _
  rw [symbols, keep, NodeTable.get?_empty]

/-- A declared name stands for the symbol of its declaration. -/
theorem get?_symbols_of_mem_names {p : String × SymbolId} (hp : p ∈ b.names) :
    ∃ kind, (p.1, kind) ∈ b.globals ∧ b.symbols.get? p.2 = some ⟨p.2, p.1, kind⟩ := by
  obtain ⟨⟨⟨name, kind⟩, number⟩, hmem, rfl⟩ := List.mem_map.mp hp
  have hget := List.mem_zipIdx_iff_getElem?.mp hmem
  refine ⟨kind, List.mem_of_getElem? hget, ?_⟩
  simp [SymbolTable.get?, declared_symbols, hget]

theorem ready {b : Blueprint} {p : Program} (h : p.Written b) :
    Ready b.symbols b.names (p.bodies.flatMap Body.indices) := by
  refine ⟨h.ascending.nodup, fun i _ => b.bindings_symbols i, ?_⟩
  intro pair hpair
  obtain ⟨kind, -, hget⟩ := b.get?_symbols_of_mem_names hpair
  exact ⟨_, hget⟩

end Blueprint

variable {b : Blueprint} {built : Build}

theorem Build.Of.program_written (h : built.Of b) : built.model.program.Written b :=
  Blueprint.written_of_written h.written

theorem Build.Of.bound (h : built.Of b) :
    ∀ body ∈ built.model.program.bodies, body.Bound built.model.symbols b.names := by
  obtain ⟨t, hbind, -, hbound⟩ := SymbolTable.exists_bindAll (Blueprint.ready h.program_written)
  have hsymbols : t = built.model.symbols := Except.ok.inj (hbind.symm.trans h.symbols)
  rwa [← hsymbols]

end Preflight
