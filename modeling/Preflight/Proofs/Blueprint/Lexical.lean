import Preflight.Proofs.Binding.Effect
import Preflight.Proofs.Blueprint.Bound
import Preflight.Proofs.Expr.Places

/-! # Lexical binding of built programs

The indices of a built program rise in the order of reading. Each variable of a loop or lambda is
bound to a symbol of its own, each reference to the innermost variable of its name or else to the
declaration of that name, and nothing else is bound. -/

namespace Preflight
set_option autoImplicit false

variable {t : SymbolTable} {names inner : Names} {vars inSight : List LocalVar}

/-! ## Names in sight -/

/-- After a binder, a name stands for what the last of its variables of that name is bound to. -/
theorem Declares.lookup_eq (h : Declares t names vars inner) (x : String) :
    inner.lookup x = match vars.reverse.find? (·.name == x) with
      | some v => t.bindings.get? v.node.index
      | none => names.lookup x := by
  induction h with
  | nil => rfl
  | @cons names inner v vars id introduces rest ih =>
    rw [ih, List.reverse_cons, List.find?_append]
    cases vars.reverse.find? (·.name == x) with
    | some w => rfl
    | none =>
      by_cases hx : v.name = x
      · subst hx
        simp [introduces.bound]
      · have hne : (v.name == x) = false := beq_eq_false_iff_ne.mpr hx
        have hne' : (x == v.name) = false := beq_eq_false_iff_ne.mpr (Ne.symm hx)
        simp [hne, hne', List.lookup_cons]

/-- What a reference is bound to, where `names` are in sight around everything. -/
def Occurrence.Resolved (t : SymbolTable) (names : Names) (o : Occurrence) : Prop :=
  t.bindings.get? o.node.index = match o.binder? with
    | some v => t.bindings.get? v.node.index
    | none => names.lookup o.name

theorem Expr.Bound.resolved {e : Expr} (h : Expr.Bound t inner e)
    (declares : Declares t names inSight inner) :
    ∀ o ∈ e.occurrences inSight, o.Resolved t names := by
  induction h generalizing inSight with
  | @reference inner n x bound =>
    intro o ho
    obtain rfl := List.mem_singleton.mp ho
    exact bound.trans (declares.lookup_eq x)
  | loop outside declares' inside ihc ihb =>
    rw [Expr.occurrences, List.forall_mem_append]
    exact ⟨ihc declares, ihb (declares.append declares')⟩
  | lambda declares' inside ih => exact ih (declares.append declares')
  | plain plain children ih =>
    rw [Expr.occurrences_eq_flatMap inSight plain]
    intro o ho
    obtain ⟨c, hc, hoc⟩ := List.mem_flatMap.mp ho
    exact ih c hc declares o hoc

theorem Body.Bound.resolved {body : Body} (h : body.Bound t inner)
    (declares : Declares t names inSight inner) :
    ∀ o ∈ body.occurrences inSight, o.Resolved t names := by
  induction body generalizing inner inSight with
  | object value => exact Expr.Bound.resolved h declares
  | conditional span condition body ih =>
    rw [Body.occurrences, List.forall_mem_append]
    exact ⟨h.1.resolved declares, ih h.2 declares⟩
  | loop head body ih =>
    obtain ⟨outside, middle, declares', inside⟩ := h
    rw [Body.occurrences, List.forall_mem_append]
    exact ⟨outside.resolved declares, ih inside (declares.append declares')⟩
  | error span => simp [Body.occurrences]

/-! ## Declared names -/

/-- The symbol of the declaration of that name. No built program declares a name twice. -/
def Blueprint.global? (b : Blueprint) (x : String) : Option Symbol :=
  (b.globals.zipIdx.find? (·.1.1 == x)).map fun ((name, kind), number) =>
    { id := ⟨number⟩, name, kind }

namespace Blueprint

variable (b : Blueprint)

theorem lookup_names (x : String) :
    b.names.lookup x = (b.globals.zipIdx.find? (·.1.1 == x)).map fun p => ⟨p.2⟩ := by
  rw [names]
  induction b.globals.zipIdx with
  | nil => rfl
  | cons p globals ih =>
    rw [List.map_cons, List.lookup_cons, List.find?_cons, BEq.comm]
    cases p.1.1 == x with
    | true => rfl
    | false => exact ih

theorem bind_lookup_names (x : String) : (b.names.lookup x).bind b.symbols.get? = b.global? x := by
  rw [lookup_names, global?]
  cases h : b.globals.zipIdx.find? (·.1.1 == x) with
  | none => rfl
  | some p =>
    have hget := List.mem_zipIdx_iff_getElem?.mp (List.mem_of_find?_eq_some h)
    simp [SymbolTable.get?, declared_symbols, hget]

end Blueprint

/-! ## Built programs -/

namespace Program

/-- The variables of all loops and lambdas of a program. -/
def declared (p : Program) : List LocalVar := p.bodies.flatMap Body.declared

/-- The references of a program. -/
def occurrences (p : Program) : List Occurrence := p.bodies.flatMap (Body.occurrences [])

theorem mem_declared_of_binder? {p : Program} {o : Occurrence} (h : o ∈ p.occurrences)
    {v : LocalVar} (hv : o.binder? = some v) : v ∈ p.declared := by
  obtain ⟨body, hbody, ho⟩ := List.mem_flatMap.mp h
  have hsight : v ∈ o.inSight := List.mem_reverse.mp (List.mem_of_find?_eq_some hv)
  have hdeclared := (Body.mem_of_inSight ho hsight).resolve_left List.not_mem_nil
  exact List.mem_flatMap.mpr ⟨body, hbody, hdeclared⟩

end Program

/-- The program is numbered in the order of reading, and bound as the places of its names demand.
The symbols of the declarations come first, those of the variables follow in their order. -/
structure Model.Lexical (b : Blueprint) (m : Model) : Prop where
  rising : (m.program.bodies.flatMap Body.indices).Pairwise (· < ·)
  below : ∀ i ∈ m.program.bodies.flatMap Body.indices, i < m.program.indices
  /-- Each variable has a symbol of its own. -/
  own : ∀ k v, m.program.declared[k]? = some v →
    m.symbols.boundTo? v.node.index = some ⟨⟨b.globals.length + k⟩, v.name, .localVar⟩
  /-- A reference stands for the innermost variable of its name, -/
  captured : ∀ o ∈ m.program.occurrences, ∀ v, o.binder? = some v → v ∈ m.program.declared ∧
    m.symbols.boundTo? o.node.index = m.symbols.boundTo? v.node.index
  /-- or, without one, for the declaration of that name, if there is any. -/
  free : ∀ o ∈ m.program.occurrences, o.binder? = none →
    m.symbols.boundTo? o.node.index = b.global? o.name
  /-- Nothing else is bound. -/
  others : ∀ i, (∀ v ∈ m.program.declared, v.node.index ≠ i) →
    (∀ o ∈ m.program.occurrences, o.node.index ≠ i) → m.symbols.boundTo? i = none

theorem Blueprint.model_lexical {b : Blueprint} {built : Build} (h : b.build = .ok built) :
    built.model.Lexical b := by
  have hof := of_build h
  have ascending := hof.program_written.ascending
  have grows : b.symbols.Grows built.model.symbols built.model.program.declared
      built.model.program.occurrences :=
    SymbolTable.grows_of_bindAll ascending.nodup hof.symbols
  have resolved : ∀ o ∈ built.model.program.occurrences,
      o.Resolved built.model.symbols b.names := by
    intro o ho
    obtain ⟨body, hbody, ho⟩ := List.mem_flatMap.mp ho
    exact (hof.bound body hbody).resolved .nil o ho
  refine ⟨ascending.pairwise, fun i hi => (ascending.bounds i hi).2, ?_, ?_, ?_, ?_⟩
  · intro k v hk
    rw [grows.boundTo?_own hk, b.declared_symbols, List.size_toArray]
  · intro o ho v hv
    have hres := resolved o ho
    rw [Occurrence.Resolved, hv] at hres
    refine ⟨Program.mem_declared_of_binder? ho hv, ?_⟩
    rw [SymbolTable.boundTo?, hres, SymbolTable.boundTo?]
  · intro o ho hnone
    have hres := resolved o ho
    rw [Occurrence.Resolved, hnone] at hres
    rw [SymbolTable.boundTo?, hres, ← b.bind_lookup_names]
    cases hid : b.names.lookup o.name with
    | none => rfl
    | some id =>
      obtain ⟨kind, -, hget⟩ := b.get?_symbols_of_mem_names (Names.mem_of_lookup hid)
      rw [Option.bind_some, Option.bind_some, grows.get?_eq_some hget, hget]
  · intro i hvars hos
    rw [SymbolTable.boundTo?, grows.others i hvars hos, b.bindings_symbols, Option.bind_none]

/-- One name for a parameter, both variables of a loop, and the parameter of a lambda. -/
def Blueprint.oneName : Blueprint where
  params := ["x"]
  resources := [
    { name := "many", typeText := "Ns/stores@1", condition := some "x"
      loop := some { item := "x", index := some "x", collection := "x" },
      properties := .ofList [("name", "join(map(x, (x) => x), y)")] }]

/-- The collection refers to the parameter, the condition and the first argument to the index, the
body of the lambda to its parameter, and the unknown name to nothing. -/
theorem Blueprint.oneName_lexical : ∃ built, oneName.build = .ok built ∧
    built.model.Lexical oneName ∧
    built.model.program.occurrences.map
      (fun o => (built.model.symbols.boundTo? o.node.index).map fun s => (s.id.number, s.name)) =
        [some (0, "x"), some (3, "x"), some (3, "x"), some (4, "x"), none] := by
  have holds : oneName.buildsWith (fun built => built.model.program.occurrences.map
      (fun o => (built.model.symbols.boundTo? o.node.index).map fun s => (s.id.number, s.name)) ==
        [some (0, "x"), some (3, "x"), some (3, "x"), some (4, "x"), none]) = true := by
    decide +kernel
  obtain ⟨built, hbuilt, hbound⟩ := buildsWith_iff.mp holds
  exact ⟨built, hbuilt, model_lexical hbuilt, beq_iff_eq.mp hbound⟩

end Preflight
