import Mathlib.Data.List.Forall2
import Mathlib.Data.Option.Basic
import Preflight.Inspection

/-! # What an inspection looks at

Two models that agree on a few parts of each declaration get the same findings, whatever else their
programs say. -/

namespace Preflight
set_option autoImplicit false

/-- The bodies are loops over the same variables or both no loops, and set the same values first
under the given keys. A body that has no object sets no values. -/
structure Body.Agree (keys : List String) (a b : Body) : Prop where
  loops : a.loopHead?.map (fun head => (head.item, head.index)) =
    b.loopHead?.map fun head => (head.item, head.index)
  values : ∀ key ∈ keys, a.property? key = b.property? key

structure ResourceDecl.Agree (r s : ResourceDecl) : Prop where
  symbol : r.symbol = s.symbol
  name : r.name = s.name
  existing : r.existing = s.existing
  type : r.type = s.type
  body : r.body.Agree ["name", "parent", "scope"] s.body

structure ModuleDecl.Agree (d e : ModuleDecl) : Prop where
  symbol : d.symbol = e.symbol
  name : d.name = e.name
  type : d.type = e.type
  body : d.body.Agree ["name", "scope"] e.body

/-- The declarations agree one by one, and what is known beside the trees is the same. -/
structure Model.Agree (m n : Model) : Prop where
  resources : List.Forall₂ ResourceDecl.Agree m.program.resources n.program.resources
  modules : List.Forall₂ ModuleDecl.Agree m.program.modules n.program.modules
  symbols : m.symbols = n.symbols
  ancestors : m.ancestors = n.ancestors
  resourceScopes : m.resourceScopes = n.resourceScopes
  moduleScopes : m.moduleScopes = n.moduleScopes

theorem filterMap_eq_of_forall₂ {α β γ : Type} {R : α → β → Prop} {f : α → Option γ}
    {g : β → Option γ} {xs : List α} {ys : List β} (h : List.Forall₂ R xs ys)
    (hfg : ∀ x y, R x y → f x = g y) : xs.filterMap f = ys.filterMap g := by
  induction h with
  | nil => rfl
  | cons hxy _ ih => rw [List.filterMap_cons, List.filterMap_cons, hfg _ _ hxy, ih]

namespace Body.Agree

variable {keys : List String} {a b : Body}

theorem stringName?_eq (h : a.Agree keys b) (hkey : "name" ∈ keys) :
    a.stringName? = b.stringName? := by
  rw [stringName?, h.values _ hkey, stringName?]

theorem scopeArgs?_eq (h : a.Agree keys b) (hkey : "scope" ∈ keys) :
    Model.scopeArgs? a = Model.scopeArgs? b := by
  rw [Model.scopeArgs?, h.values _ hkey, Model.scopeArgs?]

/-- A rule reads the values under its own keys, and the variables of the loop. -/
theorem finding?_eq (h : a.Agree keys b) {rule : VariationRule}
    (hkeys : ∀ key ∈ rule.properties, key ∈ keys) (symbols : SymbolTable) (name : Ident)
    (type : TypeRef) : rule.finding? symbols name type a = rule.finding? symbols name type b := by
  have hvalues (object : ObjectType) :
      (rule.properties.filter object.hasProperty).filterMap a.property? =
        (rule.properties.filter object.hasProperty).filterMap b.property? := by
    refine List.filterMap_congr fun key hkey => h.values key (hkeys key ?_)
    exact (List.mem_filter.mp hkey).1
  have hloops := h.loops
  unfold VariationRule.finding?
  rcases ha : a.loopHead? with _ | head <;> rcases hb : b.loopHead? with _ | head'
  · rfl
  · simp [ha, hb] at hloops
  · simp [ha, hb] at hloops
  · rw [ha, hb] at hloops
    simp only [Option.map_some, Option.some.injEq, Prod.mk.injEq] at hloops
    have hinvariant : head.isInvariant symbols = head'.isInvariant symbols := by
      funext e
      rw [LoopHead.isInvariant, hloops.1, hloops.2, LoopHead.isInvariant]
    simp only [Option.bind_eq_bind, Option.bind_some, hvalues, hinvariant, hloops.1,
      hloops.2]

end Body.Agree

namespace Model.Agree

variable {m n : Model}

theorem deploymentParent?_eq (h : m.Agree n) (scopes : Scopes) (resource : SymbolId) :
    m.deploymentParent? scopes resource = n.deploymentParent? scopes resource := by
  rw [deploymentParent?, h.symbols, h.ancestors, deploymentParent?]

theorem resourceIdentities_eq (h : m.Agree n) (scopes : Scopes) :
    m.resourceIdentities scopes = n.resourceIdentities scopes := by
  refine filterMap_eq_of_forall₂ h.resources fun r s hrs => ?_
  rw [resourceIdentity?, resourceIdentity?, hrs.existing, hrs.type, hrs.symbol, hrs.name,
    hrs.body.stringName?_eq (by simp), h.deploymentParent?_eq]

theorem moduleIdentities_eq (h : m.Agree n) (scopes : Scopes) :
    m.moduleIdentities scopes = n.moduleIdentities scopes := by
  refine filterMap_eq_of_forall₂ h.modules fun d e hde => ?_
  rw [moduleIdentity?, moduleIdentity?, hde.symbol, hde.name,
    hde.body.stringName?_eq (by simp), hde.body.scopeArgs?_eq (by simp)]

theorem incorrectQualifiers_eq (h : m.Agree n) : m.incorrectQualifiers = n.incorrectQualifiers := by
  refine filterMap_eq_of_forall₂ h.resources fun r s hrs => ?_
  rw [qualifierFinding?, qualifierFinding?, hrs.type, hrs.symbol, h.ancestors,
    hrs.body.values "name" (by simp)]

theorem resourceLoopInvariants_eq (h : m.Agree n) :
    m.resourceLoopInvariants = n.resourceLoopInvariants := by
  rw [resourceLoopInvariants, resourceLoopInvariants, List.filterMap_filter, List.filterMap_filter]
  refine filterMap_eq_of_forall₂ h.resources fun r s hrs => ?_
  rw [h.symbols, hrs.existing, hrs.name, hrs.type, hrs.body.finding?_eq (fun _ hkey => hkey)]

theorem moduleLoopInvariants_eq (h : m.Agree n) :
    m.moduleLoopInvariants = n.moduleLoopInvariants := by
  refine filterMap_eq_of_forall₂ h.modules fun d e hde => ?_
  rw [h.symbols, hde.name, hde.type, hde.body.finding?_eq (fun _ hkey => hkey)]

/-- Nothing but what agreement asks for has an influence on the findings. -/
theorem diagnostics_eq (h : m.Agree n) (options : Options) :
    (({ options } : Inspection).run m).diagnostics =
      (({ options } : Inspection).run n).diagnostics := by
  have hduplicates : m.duplicateNames m.resourceScopes m.moduleScopes =
      n.duplicateNames n.resourceScopes n.moduleScopes := by
    rw [duplicateNames, duplicateNames, h.resourceScopes, h.moduleScopes,
      h.resourceIdentities_eq, h.moduleIdentities_eq]
  simp only [Inspection.run, ScopeResolver.precomputed, Inspection.builtIn, hduplicates,
    h.incorrectQualifiers_eq, h.resourceLoopInvariants_eq, h.moduleLoopInvariants_eq]
  rfl

end Model.Agree

namespace Model

/-- Stores with one name for all of the items. -/
def constantStores (collection : Expr) (inner : Body) : Model where
  program := {
    file := "main.bicep"
    indices := 9
    modules := []
    resources := [{
      span := {}
      symbol := ⟨0⟩
      name := ⟨{}, "stores"⟩
      typeText := "Ns/stores"
      existing := false
      type := .array (.resource { types := ["Ns/stores"] }
        (.object { name := "Ns/stores", properties := [⟨"name", .any, true⟩] }))
      body := .loop { span := {}, item := ⟨⟨{}, 1⟩, "x"⟩, index := none, collection } inner }] }
  symbols :=
    let declared := (({} : SymbolTable).declare "stores" .resource).declare "x" .localVar
    (declared.bind 1 ⟨1⟩).toOption.getD {}

def bareStores : Model :=
  constantStores (.var ⟨{}, 0⟩ "all") (.object (.object {} [⟨{}, "name", .string {} ["s"] []⟩]))

def wrappedStores : Model :=
  constantStores (.array ⟨{}, 0⟩ [])
    (.conditional {} (.bool {} true) (.conditional {} (.var ⟨{}, 2⟩ "x") (.object (.object {}
      [⟨{}, "tags", .null {}⟩, ⟨{}, "name", .string {} ["s"] []⟩, ⟨{}, "name", .null {}⟩]))))

theorem bareStores_diagnostics_eq : bareStores.Agree wrappedStores ∧
    (({} : Inspection).run bareStores).diagnostics =
      (({} : Inspection).run wrappedStores).diagnostics ∧
    bareStores.resourceLoopInvariants.length = 1 := by
  have agree : bareStores.Agree wrappedStores := by
    refine ⟨.cons ⟨rfl, rfl, rfl, rfl, rfl, ?_⟩ .nil, .nil, rfl, rfl, rfl, rfl⟩
    simp only [List.forall_mem_cons]
    exact ⟨rfl, rfl, rfl, by simp⟩
  exact ⟨agree, agree.diagnostics_eq {}, by decide +kernel⟩

end Model

end Preflight
