import Mathlib.Logic.Equiv.Basic
import Preflight.Inspection
import Preflight.Proofs.Check.SharedIdentity
import Preflight.Proofs.Expr.References
import Preflight.Proofs.Renumbering

/-! # Inspections of renumbered models

Each check, run on a renumbered model, looks at the same things in the same order. So the findings
stay, down to their order, and the scopes are the renumbered ones. -/

namespace Preflight
set_option autoImplicit false

/-! ## Expressions -/

namespace Expr

theorem isString_map (r : Relabelling) (e : Expr) : (e.map r).isString = e.isString := by
  cases e with
  | call _ base => cases base <;> rfl
  | _ => rfl

theorem isReference_map (r : Relabelling) (e : Expr) : (e.map r).isReference = e.isReference := by
  cases e with
  | call _ base => cases base <;> rfl
  | _ => rfl

variable {table : SymbolTable} (ρ : Renumbering table)

theorem span_renumber (e : Expr) : (e.map ρ.relabelling).span = e.span := by
  rw [span, node_map]
  rfl

theorem normalForm_renumber (e : Expr) : (e.map ρ.relabelling).normalForm = e.normalForm :=
  map_map _ _ e

theorem literal?_renumber (e : Expr) : (e.map ρ.relabelling).literal? = e.literal? := by
  cases e with
  | string _ segments holes => rcases segments with _ | ⟨_, _ | _⟩ <;> cases holes <;> rfl
  | call _ base => cases base <;> rfl
  | _ => rfl

theorem alike_renumber (a b : Expr) :
    (a.map ρ.relabelling).alike (b.map ρ.relabelling) = a.alike b :=
  alike_eq_of_normalForm_eq (normalForm_renumber ρ a) (normalForm_renumber ρ b)

theorem localReferences_renumber (e : Expr) :
    (e.map ρ.relabelling).localReferences (table.renumber ρ) =
      (e.localReferences table).map ρ.symbol := by
  induction e using childInduction with
  | step e ih =>
    cases h : e.isReference with
    | false =>
      have h' : (e.map ρ.relabelling).isReference = false := by rw [isReference_map, h]
      rw [localReferences_eq_flatMap _ h', localReferences_eq_flatMap _ h, children_map,
        List.flatMap_map, List.map_flatMap]
      exact List.flatMap_congr ih
    | true =>
      cases e with
      | var n x =>
        change ((table.renumber ρ).localAt? (ρ.index n.index)).toList = _
        rw [SymbolTable.localAt?_renumber, localReferences]
        cases table.localAt? n.index <;> rfl
      | _ => simp [isReference] at h

theorem declaredLocal?_renumber (v : LocalVar) :
    (table.renumber ρ).declaredLocal? (v.map ρ.relabelling) =
      (table.declaredLocal? v).map ρ.symbol :=
  SymbolTable.localAt?_renumber ρ v.node.index

theorem isInvariant_renumber (item : LocalVar) (index : Option LocalVar) (e : Expr) :
    (e.map ρ.relabelling).isInvariant (table.renumber ρ) (item.map ρ.relabelling)
        (index.map (·.map ρ.relabelling)) = e.isInvariant table item index := by
  have hvars : (item.map ρ.relabelling :: (index.map (·.map ρ.relabelling)).toList) =
      (item :: index.toList).map (·.map ρ.relabelling) := by
    cases index <;> rfl
  rw [Bool.eq_iff_iff, isInvariant_iff, isInvariant_iff, hvars, List.forall_mem_map]
  refine forall₂_congr fun v _ => ?_
  have hmem (id : SymbolId) : ρ.symbol id ∈ (e.localReferences table).map ρ.symbol ↔
      id ∈ e.localReferences table := List.mem_map_of_injective ρ.symbol.injective
  rw [declaredLocal?_renumber, localReferences_renumber]
  cases table.declaredLocal? v with
  | none => simp only [Option.map_none, reduceCtorEq, false_and, exists_false]
  | some id => simp only [Option.map_some, Option.some.injEq, exists_eq_left', hmem]

end Expr

/-! ## Shared identities -/

theorem reportDuplicates_map {α β : Type} [BEq α] [Hashable α] [EquivBEq α] [LawfulHashable α]
    [BEq β] [Hashable β] [EquivBEq β] [LawfulHashable β] {f : α → β} {items : List α}
    {report : List β → β → Diagnostic} {report' : List α → α → Diagnostic}
    (hbeq : ∀ x y, (f x == f y) = (x == y))
    (hreport : ∀ group x, report (group.map f) (f x) = report' group x) :
    reportDuplicates (items.map f) report = reportDuplicates items report' := by
  rw [reportDuplicates_eq_reportClasses, reportDuplicates_eq_reportClasses, reportClasses_map]
  exact reportClasses_congr (fun x _ y _ => hbeq x y) fun group _ x _ => hreport group x

section

variable {table : SymbolTable} (ρ : Renumbering table)

def ResourceIdentity.renumber (i : ResourceIdentity) : ResourceIdentity :=
  { i with
    symbol := ρ.symbol i.symbol
    parent := i.parent.map ρ.symbol
    nameValue := i.nameValue.map ρ.relabelling }

def ModuleIdentity.renumber (i : ModuleIdentity) : ModuleIdentity :=
  { i with
    symbol := ρ.symbol i.symbol
    scopeArgs := i.scopeArgs.map (List.map (Expr.map ρ.relabelling))
    nameValue := i.nameValue.map ρ.relabelling }

theorem ResourceIdentity.renumber_beq (a b : ResourceIdentity) :
    (a.renumber ρ == b.renumber ρ) = (a == b) := by
  have hparents : (a.parent.map ρ.symbol = b.parent.map ρ.symbol) ↔ a.parent = b.parent :=
    (Option.map_injective ρ.symbol.injective).eq_iff
  rw [Bool.eq_iff_iff]
  change same _ _ = true ↔ same _ _ = true
  rw [same_iff, same_iff]
  simp only [renumber, hparents, Expr.alike_renumber]

theorem ModuleIdentity.renumber_beq (a b : ModuleIdentity) :
    (a.renumber ρ == b.renumber ρ) = (a == b) := by
  have hnormal : Expr.normalForm ∘ Expr.map ρ.relabelling = Expr.normalForm :=
    funext (Expr.normalForm_renumber ρ)
  rw [Bool.eq_iff_iff]
  change same _ _ = true ↔ same _ _ = true
  rw [same_iff, same_iff]
  simp only [renumber, Expr.alike_renumber, alikeScopes_iff_normalForm_eq, Option.map_map,
    List.map_comp_map, hnormal]

end

namespace Body

variable {table : SymbolTable} (ρ : Renumbering table)

theorem stringName?_renumber (body : Body) :
    (body.map ρ.relabelling).stringName? = body.stringName?.map (Expr.map ρ.relabelling) := by
  rw [stringName?, property?_map, stringName?]
  rcases body.property? "name" with _ | value
  · rfl
  · simp only [Option.map_some, Option.filter_some, Expr.isString_map]
    cases value.isString <;> rfl

theorem scopeArgs?_renumber (body : Body) :
    Model.scopeArgs? (body.map ρ.relabelling) =
      (Model.scopeArgs? body).map (List.map (Expr.map ρ.relabelling)) := by
  rw [Model.scopeArgs?, property?_map, Model.scopeArgs?]
  cases body.property? "scope" with
  | none => rfl
  | some value =>
    cases value with
    | call _ base _ args =>
      rw [Option.map_some, Expr.map_call]
      rfl
    | _ => rfl

end Body

namespace Model

variable (m : Model) (ρ : Renumbering m.symbols)

theorem deploymentParent?_renumber (scopes : Scopes) (resource : SymbolId) :
    (m.renumber ρ).deploymentParent? (scopes.renumber ρ.symbol) (ρ.symbol resource) =
      (m.deploymentParent? scopes resource).map ρ.symbol := by
  have honto : ((scopes.renumber ρ.symbol)[ρ.symbol resource]?.bind (·.onto)) =
      (scopes[resource]?.bind (·.onto)).map ρ.symbol := by
    rw [Scopes.getElem?_renumber ρ.symbol.injective]
    cases scopes[resource]? <;> rfl
  have hkind (id : SymbolId) :
      ((m.renumber ρ).symbols.get? (ρ.symbol id)).any (·.kind == .resource) =
        (m.symbols.get? id).any (·.kind == .resource) := by
    have hget : (m.renumber ρ).symbols.get? (ρ.symbol id) = _ := SymbolTable.get?_renumber ρ id
    rw [hget, Option.any_map]
  have hnearest : (m.renumber ρ).ancestors.nearest? (ρ.symbol resource) = _ :=
    Ancestry.nearest?_renumber ρ.symbol.injective m.ancestors resource
  simp only [deploymentParent?, honto, hnearest, Option.filter_map, Function.comp_def, hkind]
  generalize (scopes[resource]?.bind (·.onto)).filter _ = onto
  cases onto with
  | some id => rfl
  | none => cases m.ancestors.nearest? resource <;> rfl

theorem resourceIdentity?_renumber (scopes : Scopes) (r : ResourceDecl) :
    (m.renumber ρ).resourceIdentity? (scopes.renumber ρ.symbol) (r.renumber ρ) =
      (m.resourceIdentity? scopes r).map (·.renumber ρ) := by
  have hparent : (m.renumber ρ).deploymentParent? (scopes.renumber ρ.symbol)
      (r.renumber ρ).symbol = _ := deploymentParent?_renumber m ρ scopes r.symbol
  have hname : (r.renumber ρ).body.stringName? = _ := Body.stringName?_renumber ρ r.body
  rw [resourceIdentity?, resourceIdentity?, hparent, hname]
  rcases r with ⟨_, _, _, _, existing, type, body⟩
  simp only [ResourceDecl.renumber]
  cases existing <;> cases type.resourceType? <;> cases body.stringName? <;> rfl

theorem resourceIdentities_renumber (scopes : Scopes) :
    (m.renumber ρ).resourceIdentities (scopes.renumber ρ.symbol) =
      (m.resourceIdentities scopes).map (·.renumber ρ) := by
  rw [resourceIdentities, resourceIdentities, List.map_filterMap]
  refine (List.filterMap_map ..).trans (List.filterMap_congr fun r _ => ?_)
  exact resourceIdentity?_renumber m ρ scopes r

theorem moduleIdentity?_renumber (scopes : Scopes) (d : ModuleDecl) :
    moduleIdentity? (scopes.renumber ρ.symbol) (d.renumber ρ) =
      (moduleIdentity? scopes d).map (·.renumber ρ) := by
  have hscope : (scopes.renumber ρ.symbol)[(d.renumber ρ).symbol]? = _ :=
    Scopes.getElem?_renumber ρ.symbol.injective scopes d.symbol
  have hname : (d.renumber ρ).body.stringName? = _ := Body.stringName?_renumber ρ d.body
  have hargs : scopeArgs? (d.renumber ρ).body = _ := Body.scopeArgs?_renumber ρ d.body
  rw [moduleIdentity?, moduleIdentity?, hscope, hname, hargs]
  cases scopes[d.symbol]? <;> cases d.body.stringName? <;> rfl

theorem moduleIdentities_renumber (scopes : Scopes) :
    (m.renumber ρ).moduleIdentities (scopes.renumber ρ.symbol) =
      (m.moduleIdentities scopes).map (·.renumber ρ) := by
  rw [moduleIdentities, moduleIdentities, List.map_filterMap]
  refine (List.filterMap_map ..).trans (List.filterMap_congr fun d _ => ?_)
  exact moduleIdentity?_renumber m ρ scopes d

theorem duplicateNames_renumber (resourceScopes moduleScopes : Scopes) :
    (m.renumber ρ).duplicateNames (resourceScopes.renumber ρ.symbol)
        (moduleScopes.renumber ρ.symbol) = m.duplicateNames resourceScopes moduleScopes := by
  rw [duplicateNames, duplicateNames, resourceIdentities_renumber, moduleIdentities_renumber]
  congr 1
  · apply reportDuplicates_map (ResourceIdentity.renumber_beq ρ)
    intro group i
    rw [List.map_map]
    exact congrArg (Diagnostic.duplicateResources · _) (Expr.span_renumber ρ i.nameValue)
  · apply reportDuplicates_map (ModuleIdentity.renumber_beq ρ)
    intro group i
    rw [List.map_map]
    exact congrArg (Diagnostic.duplicateModules · _) (Expr.span_renumber ρ i.nameValue)

/-! ## Names and loops -/

theorem qualifierFinding?_renumber (r : ResourceDecl) :
    (m.renumber ρ).qualifierFinding? (r.renumber ρ) = m.qualifierFinding? r := by
  have hancestors : (m.renumber ρ).ancestors.ancestors (r.renumber ρ).symbol = _ :=
    Ancestry.ancestors_renumber ρ.symbol.injective m.ancestors r.symbol
  have hname : (r.renumber ρ).body.property? "name" = _ := Body.property?_map _ "name" r.body
  have htype : (r.renumber ρ).type = r.type := rfl
  simp only [qualifierFinding?, hancestors, hname, htype, ne_eq, List.map_eq_nil_iff]
  cases r.type.resourceType? with
  | none => rfl
  | some type =>
    cases r.body.property? "name" with
    | none => rfl
    | some value =>
      cases value with
      | string n segments holes =>
        have hsegments : segments.map ρ.relabelling.segment = segments := List.map_id segments
        have hspan := Expr.span_renumber ρ (.string n segments holes)
        have hliteral := Expr.literal?_renumber ρ (.string n segments holes)
        simp only [Expr.map, hsegments] at hspan hliteral
        simp only [Option.map_some, Option.bind_eq_bind, Option.bind_some, Expr.map, hsegments,
          Expr.node, hspan, hliteral]
      | call _ base => cases base <;> rfl
      | _ => rfl

theorem incorrectQualifiers_renumber :
    (m.renumber ρ).incorrectQualifiers = m.incorrectQualifiers := by
  refine (List.filterMap_map ..).trans (List.filterMap_congr fun r _ => ?_)
  exact qualifierFinding?_renumber m ρ r

end Model

theorem Quantifier.holds_map {α β : Type} (q : Quantifier) (p : β → Bool) (f : α → β)
    (xs : List α) : q.holds p (xs.map f) = q.holds (p ∘ f) xs := by
  cases q with
  | any => exact List.any_map
  | all => exact List.all_map

theorem VariationRule.finding?_renumber {table : SymbolTable} (ρ : Renumbering table)
    (rule : VariationRule) (name : Ident) (type : TypeRef) (body : Body) :
    rule.finding? (table.renumber ρ) name type (body.map ρ.relabelling) =
      rule.finding? table name type body := by
  have hvalues (object : ObjectType) :
      (rule.properties.filter object.hasProperty).filterMap (body.map ρ.relabelling).property? =
        ((rule.properties.filter object.hasProperty).filterMap body.property?).map
          (Expr.map ρ.relabelling) := by
    rw [List.map_filterMap]
    exact List.filterMap_congr fun key _ => Body.property?_map _ key body
  unfold finding?
  rw [Body.loopHead?_map]
  cases body.loopHead? with
  | none => simp only [Option.map_none, Option.bind_eq_bind, Option.bind_none]
  | some head =>
    have hinvariant (e : Expr) : (head.map ρ.relabelling).isInvariant (table.renumber ρ)
        (e.map ρ.relabelling) = head.isInvariant table e :=
      Expr.isInvariant_renumber ρ head.item head.index e
    have hitem : (head.map ρ.relabelling).item.name = head.item.name := rfl
    have hindex : (head.map ρ.relabelling).index.map LocalVar.name =
        head.index.map LocalVar.name := by
      rw [LoopHead.map, Option.map_map]
      rfl
    simp only [Option.map_some, Option.bind_eq_bind, Option.bind_some, hvalues, hitem, hindex,
      ne_eq, List.map_eq_nil_iff, Quantifier.holds_map, Function.comp_def, hinvariant]

namespace Model

variable (m : Model) (ρ : Renumbering m.symbols)

theorem resourceLoopInvariants_renumber :
    (m.renumber ρ).resourceLoopInvariants = m.resourceLoopInvariants := by
  rw [resourceLoopInvariants, resourceLoopInvariants, List.filterMap_filter, List.filterMap_filter]
  refine (List.filterMap_map ..).trans (List.filterMap_congr fun r _ => ?_)
  have hfinding : VariationRule.resource.finding? (m.renumber ρ).symbols (r.renumber ρ).name
      (r.renumber ρ).type (r.renumber ρ).body = _ :=
    VariationRule.finding?_renumber ρ .resource r.name r.type r.body
  rw [Function.comp_apply, hfinding]
  rfl

theorem moduleLoopInvariants_renumber :
    (m.renumber ρ).moduleLoopInvariants = m.moduleLoopInvariants := by
  refine (List.filterMap_map ..).trans (List.filterMap_congr fun d _ => ?_)
  exact VariationRule.finding?_renumber ρ .module d.name d.type d.body

/-- Numbers leave no trace: the findings are the same, and each scope is found under the new number
of its symbol. -/
theorem run_renumber (options : Options) :
    let report := ({ options } : Inspection).run m
    let report' := ({ options } : Inspection).run (m.renumber ρ)
    report'.diagnostics = report.diagnostics ∧ ∀ id,
      report'.resourceScopes[ρ.symbol id]? =
        report.resourceScopes[id]?.map (Scope.renumber ρ.symbol) ∧
      report'.moduleScopes[ρ.symbol id]? =
        report.moduleScopes[id]?.map (Scope.renumber ρ.symbol) := by
  refine ⟨?_, fun id => ⟨?_, ?_⟩⟩
  · have hduplicates : (m.renumber ρ).duplicateNames (m.renumber ρ).resourceScopes
        (m.renumber ρ).moduleScopes = m.duplicateNames m.resourceScopes m.moduleScopes :=
      duplicateNames_renumber m ρ m.resourceScopes m.moduleScopes
    simp only [Inspection.run, ScopeResolver.precomputed, Inspection.builtIn, hduplicates,
      incorrectQualifiers_renumber, resourceLoopInvariants_renumber,
      moduleLoopInvariants_renumber]
    rfl
  · exact Scopes.getElem?_renumber ρ.symbol.injective m.resourceScopes id
  · exact Scopes.getElem?_renumber ρ.symbol.injective m.moduleScopes id

/-- A store whose name has a part too many, and one that is deployed onto it. -/
def stackedStores : Model where
  program := {
    file := "main.bicep"
    indices := 1
    modules := []
    resources := [store ⟨0⟩ "lower" (.string {} ["a/b"] []), store ⟨1⟩ "upper" (.var {} "lower")] }
  symbols :=
    let declared := (({} : SymbolTable).declare "lower" .resource).declare "upper" .resource
    (declared.bind 0 ⟨0⟩).toOption.getD declared
  resourceScopes := ({} : Scopes).insert ⟨1⟩ (.onResource ⟨0⟩)
where
  store (symbol : SymbolId) (name : String) (value : Expr) : ResourceDecl := {
    span := {}
    symbol
    name := ⟨{}, name⟩
    typeText := "Ns/stores"
    existing := false
    type := .resource { types := ["Ns/stores"] } .any
    body := .object (.object {} [⟨{}, "name", value⟩]) }

/-- The two stores change places, and every node gets the next index. -/
def swappedStores : Renumbering stackedStores.symbols where
  symbol := .swap ⟨0⟩ ⟨1⟩
  index := (· + 1)
  declared_iff := by
    rintro ⟨_ | _ | n⟩
    · decide +kernel
    · decide +kernel
    · have outside : (Equiv.swap (⟨0⟩ : SymbolId) ⟨1⟩) ⟨n + 2⟩ = ⟨n + 2⟩ :=
        Equiv.swap_apply_of_ne_of_ne (by simp) (by simp)
      rw [outside]
  index_injective _ _ := Nat.succ.inj

theorem run_renumber_swappedStores :
    let report := ({} : Inspection).run (stackedStores.renumber swappedStores)
    report.diagnostics = [.qualifierCount {} 0] ∧
    report.resourceScopes[(⟨0⟩ : SymbolId)]? = some (.onResource ⟨1⟩) := by
  obtain ⟨diagnostics, scopes⟩ := run_renumber stackedStores swappedStores {}
  refine ⟨diagnostics.trans ?_, (scopes ⟨1⟩).1.trans ?_⟩
  · -- hashes do not evaluate, so the groups are told by comparison
    simp only [Inspection.run, Inspection.builtIn, duplicateNames,
      reportDuplicates_eq_reportClasses]
    decide +kernel
  · decide +kernel

end Model

end Preflight
