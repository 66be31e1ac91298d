import Preflight.Proofs.Blueprint.Bound
import Preflight.Proofs.Check.ReportedTogether
import Preflight.Proofs.Expr.FreeNames
import Preflight.Proofs.Expr.Places

/-! # References in shared names

Names are compared as they are written, so what the references in them stand for is a matter of
what is in sight around the two declarations. -/

namespace Preflight
set_option autoImplicit false

variable {t : SymbolTable} {names inner : Names}

/-- Both bound to one symbol, both to local symbols, or both not bound. -/
def Interchangeable (s s' : Option Symbol) : Prop :=
  s = s' ∨ s.any Symbol.isLocal = true ∧ s'.any Symbol.isLocal = true

instance (s s' : Option Symbol) : Decidable (Interchangeable s s') :=
  inferInstanceAs (Decidable (_ ∨ _))

/-! ## What a name stands for -/

def SymbolTable.meaning? (t : SymbolTable) (names : Names) (x : String) : Option Symbol :=
  (names.lookup x).bind t.get?

namespace Declares

variable {vars : List LocalVar} {x : String}

theorem meaning?_isLocal (h : Declares t names vars inner) (hx : x ∈ vars.map LocalVar.name) :
    (t.meaning? inner x).any Symbol.isLocal = true := by
  obtain ⟨v, -, -, id, introduces, hlookup⟩ := h.lookup_of_mem hx
  rw [SymbolTable.meaning?, hlookup, Option.bind_some, introduces.declared]
  rfl

theorem meaning?_eq (h : Declares t names vars inner) (hx : x ∉ vars.map LocalVar.name) :
    t.meaning? inner x = t.meaning? names x := by
  rw [SymbolTable.meaning?, h.lookup_of_not_mem hx, SymbolTable.meaning?]

theorem isLocal_meaning?_iff (h : Declares t names vars inner)
    (hglobal : (t.meaning? names x).any Symbol.isLocal = false) :
    (t.meaning? inner x).any Symbol.isLocal = true ↔ x ∈ vars.map LocalVar.name := by
  constructor
  · intro hlocal
    by_contra hx
    rw [h.meaning?_eq hx, hglobal] at hlocal
    cases hlocal
  · exact h.meaning?_isLocal

/-- In a place with no local variable of the name around it, two scopes give the name one meaning
if both have a variable of this name or neither has. -/
theorem interchangeable_iff {vars' : List LocalVar} {inner' : Names}
    (h : Declares t names vars inner) (h' : Declares t names vars' inner')
    (hglobal : (t.meaning? names x).any Symbol.isLocal = false) :
    Interchangeable (t.meaning? inner x) (t.meaning? inner' x) ↔
      (x ∈ vars.map LocalVar.name ↔ x ∈ vars'.map LocalVar.name) := by
  constructor
  · intro hsame
    rw [← h.isLocal_meaning?_iff hglobal, ← h'.isLocal_meaning?_iff hglobal]
    rcases hsame with hsame | ⟨hlocal, hlocal'⟩
    · rw [hsame]
    · exact iff_of_true hlocal hlocal'
  · intro hiff
    by_cases hx : x ∈ vars.map LocalVar.name
    · exact .inr ⟨h.meaning?_isLocal hx, h'.meaning?_isLocal (hiff.mp hx)⟩
    · have hx' : x ∉ vars'.map LocalVar.name := fun hx' => hx (hiff.mpr hx')
      exact .inl (by rw [h.meaning?_eq hx, h'.meaning?_eq hx'])

end Declares

/-! ## References in the values of a declaration -/

/-- The variables of the loops around the object of a declaration, outermost first. -/
def Body.localVars : Body → List LocalVar
  | .loop head inner => head.item :: head.index.toList ++ inner.localVars
  | .conditional _ _ inner => inner.localVars
  | .object _ | .error _ => []

def Body.localNames (body : Body) : List String := body.localVars.map LocalVar.name

theorem Body.Bound.value {body : Body} {key : String} {value : Expr} (h : body.Bound t names)
    (hvalue : body.property? key = some value) :
    ∃ inner, Declares t names body.localVars inner ∧ Expr.Bound t inner value := by
  induction body generalizing names with
  | object e =>
    cases e with
    | object n ps =>
      obtain ⟨p, hp, rfl⟩ := Option.map_eq_some_iff.mp hvalue
      have hmem : p.value ∈ (Expr.object n ps).children :=
        List.mem_map_of_mem (List.mem_of_find?_eq_some hp)
      exact ⟨names, .nil, Expr.Bound.of_mem_children h rfl hmem⟩
    | _ => cases hvalue
  | conditional span condition body ih => exact ih h.2 hvalue
  | loop head body ih =>
    obtain ⟨-, middle, declares, hbody⟩ := h
    obtain ⟨inner, declares', hinside⟩ := ih hbody hvalue
    exact ⟨inner, declares.append declares', hinside⟩
  | error span => cases hvalue

theorem Expr.Bound.boundTo? {n : Node} {x : String} (h : Expr.Bound t names (.var n x)) :
    t.boundTo? n.index = t.meaning? names x := by
  cases h with
  | reference bound => rw [SymbolTable.boundTo?, bound, SymbolTable.meaning?]
  | plain plain => cases plain

/-- What the references in two names of declarations are to each other: at the same places stand
references of the same spelling, and they are interchangeable unless the spelling is that of a loop
variable of one of the declarations only, not captured on the way to the place. -/
def Body.ReferencesCorrespond (t : SymbolTable) (a b : Body) : Prop :=
  ∃ v w, a.property? "name" = some v ∧ b.property? "name" = some w ∧
    ∀ path n x, v.part? path = some (.var n x) → ∃ m, w.part? path = some (.var m x) ∧
      (Interchangeable (t.boundTo? n.index) (t.boundTo? m.index) ↔
        x ∈ v.captured path ∨ (x ∈ a.localNames ↔ x ∈ b.localNames))

theorem Body.Bound.referencesCorrespond {a b : Body} {v w : Expr} (ha : a.Bound t names)
    (hb : b.Bound t names)
    (hglobal : ∀ x, (t.meaning? names x).any Symbol.isLocal = false)
    (hv : a.property? "name" = some v) (hw : b.property? "name" = some w)
    (halike : v.alike w = true) : a.ReferencesCorrespond t b := by
  refine ⟨v, w, hv, hw, fun path n x hn => ?_⟩
  obtain ⟨y, hy, hxy, hcaptured⟩ := Expr.part?_of_alike halike hn
  obtain ⟨m, rfl⟩ := Expr.exists_var_of_alike hxy
  refine ⟨m, hy, ?_⟩
  obtain ⟨around, declares, hbound⟩ := ha.value hv
  obtain ⟨around', declares', hbound'⟩ := hb.value hw
  obtain ⟨vars, inner, hvars, inside, hn'⟩ := hbound.part hn
  obtain ⟨vars', inner', hvars', inside', hm'⟩ := hbound'.part hy
  rw [hn'.boundTo?, hm'.boundTo?,
    (declares.append inside).interchangeable_iff (declares'.append inside') (hglobal x),
    List.map_append, List.map_append, hvars, hvars', ← hcaptured, List.mem_append, List.mem_append]
  by_cases hx : x ∈ v.captured path <;> simp [hx, Body.localNames]

/-! ## Built programs -/

namespace Build.Of

variable {b : Blueprint} {built : Build}

theorem isLocal_meaning?_names (h : built.Of b) (x : String) :
    (built.model.symbols.meaning? b.names x).any Symbol.isLocal = false := by
  obtain ⟨t, hbind, hextends, -⟩ := SymbolTable.exists_bindAll (Blueprint.ready h.program_written)
  have hsymbols : t = built.model.symbols := Except.ok.inj (hbind.symm.trans h.symbols)
  rw [← hsymbols, SymbolTable.meaning?]
  cases hx : b.names.lookup x with
  | none => rfl
  | some id =>
    obtain ⟨kind, hkind, hget⟩ := b.get?_symbols_of_mem_names (Names.mem_of_lookup hx)
    rw [Option.bind_some, hextends.symbols _ _ hget]
    simp only [Blueprint.globals, List.mem_append, List.mem_map, Prod.mk.injEq] at hkind
    rcases hkind with ((⟨_, _, _, rfl⟩ | ⟨_, _, _, rfl⟩) | ⟨_, _, _, rfl⟩) | ⟨_, _, _, rfl⟩ <;> rfl

end Build.Of

/-- In a built program, references in names that are reported together have one meaning except where
a loop variable of one of the declarations has taken the name. -/
theorem Blueprint.reported_references_correspond {b : Blueprint} {built : Build}
    (h : b.build = .ok built) :
    (∀ r s, built.model.ResourcesTogether built.model.resourceScopes r s →
      r.body.ReferencesCorrespond built.model.symbols s.body) ∧
    ∀ d e, built.model.ModulesTogether built.model.moduleScopes d e →
      d.body.ReferencesCorrespond built.model.symbols e.body := by
  have hof := of_build h
  constructor
  · intro r s together
    have hr : r.body ∈ built.model.program.bodies :=
      List.mem_append_left _ (List.mem_map_of_mem together.1)
    have hs : s.body ∈ built.model.program.bodies :=
      List.mem_append_left _ (List.mem_map_of_mem together.2.1)
    obtain ⟨i, j, hi, hj, hij⟩ := together.identities
    obtain ⟨-, type, v, -, hv, -, rfl⟩ := Model.resourceIdentity?_eq_some_iff.mp hi
    obtain ⟨-, type', w, -, hw, -, rfl⟩ := Model.resourceIdentity?_eq_some_iff.mp hj
    exact (hof.bound _ hr).referencesCorrespond (hof.bound _ hs) hof.isLocal_meaning?_names hv hw
      (ResourceIdentity.same_iff.mp hij).2.2
  · intro d e together
    have hd : d.body ∈ built.model.program.bodies :=
      List.mem_append_right _ (List.mem_map_of_mem together.1)
    have he : e.body ∈ built.model.program.bodies :=
      List.mem_append_right _ (List.mem_map_of_mem together.2.1)
    obtain ⟨i, j, hi, hj, hij⟩ := together.identities
    obtain ⟨scope, v, -, hv, -, rfl⟩ := Model.moduleIdentity?_eq_some_iff.mp hi
    obtain ⟨scope', w, -, hw, -, rfl⟩ := Model.moduleIdentity?_eq_some_iff.mp hj
    exact (hof.bound _ hd).referencesCorrespond (hof.bound _ he) hof.isLocal_meaning?_names hv hw
      (ModuleIdentity.same_iff.mp hij).2.2

/-- Stores named after the items of two loops. -/
def Blueprint.repeatedItem : Blueprint where
  params := ["all", "others"]
  resources := [
    { name := "these", typeText := "Ns/stores@1", loop := some { item := "x", collection := "all" },
      properties := .ofList [("name", "'s${x}'")] },
    { name := "those", typeText := "Ns/stores@1",
      loop := some { item := "x", collection := "others" },
      properties := .ofList [("name", "'S${x}'")] }]

/-- Both references are to local variables. -/
theorem Blueprint.repeatedItem_references_correspond : ∃ built, repeatedItem.build = .ok built ∧
    ∃ r s, built.model.ResourcesTogether built.model.resourceScopes r s ∧ ∃ v w,
      r.body.property? "name" = some v ∧ s.body.property? "name" = some w ∧ ∃ n m x,
      v.part? [0] = some (.var n x) ∧ w.part? [0] = some (.var m x) ∧
      Interchangeable (built.model.symbols.boundTo? n.index)
        (built.model.symbols.boundTo? m.index) := by
  have holds : repeatedItem.buildsWith (fun built => isPairWith (fun r s =>
      identified (built.model.resourceIdentity? built.model.resourceScopes) r s &&
        (((r.body.property? "name").bind (Expr.part? [0])).any Expr.isReference &&
          r.body.localNames == s.body.localNames)) built.model.program.resources) = true := by
    decide +kernel
  obtain ⟨built, hbuilt, hpair⟩ := buildsWith_iff.mp holds
  obtain ⟨r, s, hresources, htest⟩ := isPairWith_iff.mp hpair
  simp only [Bool.and_eq_true, beq_iff_eq] at htest
  obtain ⟨hidentified, hreference, hvariables⟩ := htest
  have pair : [r, s].Sublist built.model.program.resources := by rw [hresources]
  have together := (reportedTogether_iff pair).mpr (identified_iff.mp hidentified)
  obtain ⟨v, w, hv, hw, hplaces⟩ := (reported_references_correspond hbuilt).1 r s together
  rw [hv, Option.bind_some] at hreference
  obtain ⟨e, hpart, href⟩ := (Option.any_eq_true _ _).mp hreference
  cases e with
  | var n x =>
    obtain ⟨m, hm, hiff⟩ := hplaces [0] n x hpart
    exact ⟨built, hbuilt, r, s, together, v, w, hv, hw, n, m, x, hpart, hm,
      hiff.mpr (.inr (by rw [hvariables]))⟩
  | _ => cases href

/-- Whether two trees have references of one spelling at a place that are not interchangeable. -/
def SymbolTable.confuses (t : SymbolTable) (path : List Nat) (v w : Expr) : Bool :=
  match v.part? path, w.part? path with
  | some (.var n x), some (.var m y) =>
    x == y && !decide (Interchangeable (t.boundTo? n.index) (t.boundTo? m.index))
  | _, _ => false

theorem SymbolTable.confuses_iff {path : List Nat} {v w : Expr} :
    t.confuses path v w = true ↔ ∃ n m x, v.part? path = some (.var n x) ∧
      w.part? path = some (.var m x) ∧
      ¬ Interchangeable (t.boundTo? n.index) (t.boundTo? m.index) := by
  unfold confuses
  split
  next n x m y hv hw =>
    simp only [hv, hw, Bool.and_eq_true, beq_iff_eq, Bool.not_eq_true', decide_eq_false_iff_not,
      Option.some.injEq, Expr.var.injEq]
    constructor
    · rintro ⟨rfl, hnot⟩
      exact ⟨n, m, x, ⟨rfl, rfl⟩, ⟨rfl, rfl⟩, hnot⟩
    · rintro ⟨n, m, x, ⟨rfl, rfl⟩, ⟨rfl, rfl⟩, hnot⟩
      exact ⟨rfl, hnot⟩
  next hnone =>
    simp only [Bool.false_eq_true, false_iff]
    rintro ⟨n, m, x, hv, hw, -⟩
    exact hnone n x m x hv hw

/-- A store named after a parameter, and stores named after a loop variable of the same spelling. -/
def Blueprint.takenName : Blueprint where
  params := ["x", "all"]
  resources := [
    { name := "single", typeText := "Ns/stores@1", properties := .ofList [("name", "'s${x}'")] },
    { name := "many", typeText := "Ns/stores@1", loop := some { item := "x", collection := "all" },
      properties := .ofList [("name", "'s${x}'")] }]

/-- The two are reported together, though the references in their names have two meanings. -/
theorem Blueprint.takenName_reported : ∃ built, takenName.build = .ok built ∧ ∃ r s,
    built.model.ResourcesTogether built.model.resourceScopes r s ∧ ∃ v w,
      r.body.property? "name" = some v ∧ s.body.property? "name" = some w ∧ ∃ n m x,
      v.part? [0] = some (.var n x) ∧ w.part? [0] = some (.var m x) ∧
      ¬ Interchangeable (built.model.symbols.boundTo? n.index)
        (built.model.symbols.boundTo? m.index) := by
  have holds : takenName.buildsWith (fun built => isPairWith (fun r s =>
      identified (built.model.resourceIdentity? built.model.resourceScopes) r s &&
        (r.body.property? "name").any fun v => (s.body.property? "name").any fun w =>
          built.model.symbols.confuses [0] v w) built.model.program.resources) = true := by
    decide +kernel
  obtain ⟨built, hbuilt, hpair⟩ := buildsWith_iff.mp holds
  obtain ⟨r, s, hresources, htest⟩ := isPairWith_iff.mp hpair
  simp only [Bool.and_eq_true, Option.any_eq_true] at htest
  obtain ⟨hidentified, v, hv, w, hw, hconfuses⟩ := htest
  have pair : [r, s].Sublist built.model.program.resources := by rw [hresources]
  exact ⟨built, hbuilt, r, s, (reportedTogether_iff pair).mpr (identified_iff.mp hidentified),
    v, w, hv, hw, SymbolTable.confuses_iff.mp hconfuses⟩

end Preflight
