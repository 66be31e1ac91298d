import Mathlib.Data.Option.Basic
import Preflight.Check.SharedIdentity
import Preflight.Proofs.Deployment.Grouping
import Preflight.Proofs.Deployment.Identity

/-! # Shared identities, pair by pair

The findings about shared identities, told without identities: from declarations that are compared
with each other pairwise. -/

namespace Preflight
set_option autoImplicit false

variable {α β : Type}

/-- One finding for each member of each class of two or more. -/
def reportClasses (same : α → α → Bool) (items : List α) (report : List α → α → Diagnostic) :
    List Diagnostic :=
  ((classes same items).filter (1 < ·.length)).flatMap fun group => group.map (report group)

theorem reportDuplicates_eq_reportClasses [BEq α] [Hashable α] [EquivBEq α] [LawfulHashable α]
    (items : List α) (report : List α → α → Diagnostic) :
    reportDuplicates items report = reportClasses (· == ·) items report := by
  rw [reportDuplicates, Grouping.duplicates_ofList, reportClasses]

theorem reportClasses_map (same : β → β → Bool) (f : α → β) (items : List α)
    (report : List β → β → Diagnostic) :
    reportClasses same (items.map f) report =
      reportClasses (fun x y => same (f x) (f y)) items
        fun group x => report (group.map f) (f x) := by
  simp [reportClasses, classes_map, List.filter_map, List.flatMap_map, Function.comp_def]

theorem reportClasses_congr {same same' : α → α → Bool} {items : List α}
    {report report' : List α → α → Diagnostic}
    (hs : ∀ x ∈ items, ∀ y ∈ items, same x y = same' x y)
    (hr : ∀ group : List α, (∀ x ∈ group, x ∈ items) →
      ∀ x ∈ group, report group x = report' group x) :
    reportClasses same items report = reportClasses same' items report' := by
  rw [reportClasses, reportClasses, classes_congr hs]
  apply List.flatMap_congr
  intro group hgroup
  apply List.map_congr_left
  exact hr group fun x hx => mem_of_mem_classes (List.mem_filter.mp hgroup).1 hx

/-- Items with a key are reported by key as they are by themselves, if the keys tell the same. -/
theorem reportClasses_filterMap {key : α → Option β} {eligible : α → Bool}
    {same : β → β → Bool} {twins : α → α → Bool} {report : List β → β → Diagnostic}
    {reportItem : List α → α → Diagnostic} (items : List α)
    (heligible : ∀ x, eligible x = (key x).isSome)
    (htwins : ∀ x y i j, key x = some i → key y = some j → same i j = twins x y)
    (hreport : ∀ pairs : List (α × β), (∀ p ∈ pairs, key p.1 = some p.2) → ∀ p ∈ pairs,
      report (pairs.map Prod.snd) p.2 = reportItem (pairs.map Prod.fst) p.1) :
    reportClasses same (items.filterMap key) report =
      reportClasses twins (items.filter eligible) reportItem := by
  let pairs := items.filterMap fun x => (key x).map (x, ·)
  have key_of_mem : ∀ p ∈ pairs, key p.1 = some p.2 := by
    intro p hp
    obtain ⟨x, -, hx⟩ := List.mem_filterMap.mp hp
    obtain ⟨i, hi, rfl⟩ := Option.map_eq_some_iff.mp hx
    exact hi
  have keys_eq : items.filterMap key = pairs.map Prod.snd := by
    simp [pairs, List.map_filterMap, Function.comp_def]
  have eligible_eq : items.filter eligible = pairs.map Prod.fst := by
    rw [List.map_filterMap, ← List.filterMap_eq_filter]
    apply List.filterMap_congr
    intro x _
    cases h : key x <;> simp [Option.guard, heligible, h]
  rw [keys_eq, eligible_eq, reportClasses_map, reportClasses_map]
  apply reportClasses_congr
  · intro p hp q hq
    exact htwins _ _ _ _ (key_of_mem p hp) (key_of_mem q hq)
  · intro group hgroup p hp
    exact hreport group (fun p hp => key_of_mem p (hgroup p hp)) p hp

/-! ## Resources -/

/-- Whether a resource is deployed under a name in the form of a string. -/
def ResourceDecl.isNamed (r : ResourceDecl) : Bool :=
  !r.existing && r.type.resourceType?.isSome && (r.body.property? "name").any Expr.isString

def Body.nameSpan (body : Body) : Span := ((body.property? "name").map Expr.span).getD {}

def Body.likeNames (a b : Body) : Bool :=
  (a.property? "name").any fun v => (b.property? "name").any v.alike

theorem Body.likeNames_iff {a b : Body} (ha : (a.property? "name").any Expr.isString = true)
    (hb : (b.property? "name").any Expr.isString = true) :
    a.likeNames b = true ↔
      (a.property? "name").map Expr.normalForm = (b.property? "name").map Expr.normalForm := by
  obtain ⟨v, hv, -⟩ := (Option.any_eq_true _ _).mp ha
  obtain ⟨w, hw, -⟩ := (Option.any_eq_true _ _).mp hb
  simp [likeNames, hv, hw, Expr.alike_iff_normalForm_eq]

namespace Model

/-- The resource that the scope of a resource names, if there is such a resource, else the nearest
ancestor. -/
def parentOf? (m : Model) (scopes : Scopes) (resource : SymbolId) : Option SymbolId :=
  let nearest := (m.ancestors.ancestors resource).head?.map (·.resource)
  match scopes[resource]? with
  | some { onto := some target, .. } =>
    if (m.symbols.get? target).map (·.kind) = some .resource then some target else nearest
  | _ => nearest

theorem deploymentParent?_eq_parentOf? (m : Model) (scopes : Scopes) (resource : SymbolId) :
    m.deploymentParent? scopes resource = m.parentOf? scopes resource := by
  unfold deploymentParent? parentOf? Ancestry.nearest?
  rcases scopes[resource]? with _ | ⟨_, _ | target⟩
  · rfl
  · rfl
  · rcases h : m.symbols.get? target with _ | symbol
    · simp [Option.filter_some, h]
    · by_cases hk : symbol.kind = .resource <;> simp [Option.filter_some, h, hk]

/-- Two resources with one parent, types that differ in case or version at most, and like names. -/
def twins (m : Model) (scopes : Scopes) (r s : ResourceDecl) : Bool :=
  m.parentOf? scopes r.symbol == m.parentOf? scopes s.symbol &&
    r.type.resourceType?.map (asciiLowercase ·.fullyQualified) ==
      s.type.resourceType?.map (asciiLowercase ·.fullyQualified) &&
    r.body.likeNames s.body

theorem twins_equivalence (m : Model) (scopes : Scopes) :
    Equivalence fun r s : { r : ResourceDecl // r.isNamed = true } =>
      m.twins scopes r s = true := by
  refine equivalence_of_kernel (fun r => (m.parentOf? scopes r.1.symbol,
    r.1.type.resourceType?.map (asciiLowercase ·.fullyQualified),
    (r.1.body.property? "name").map Expr.normalForm)) ?_
  rintro ⟨r, hr⟩ ⟨s, hs⟩
  simp only [ResourceDecl.isNamed, Bool.and_eq_true] at hr hs
  simp [twins, Body.likeNames_iff hr.2 hs.2, and_assoc]

/-- Each named resource with a twin is reported at its name, together with its twins. -/
def twinReports (m : Model) (scopes : Scopes) : List Diagnostic :=
  reportClasses (m.twins scopes) (m.program.resources.filter ResourceDecl.isNamed) fun group r =>
    .duplicateResources r.body.nameSpan (group.map (·.name.name))

theorem resourceIdentity?_eq_some_iff {m : Model} {scopes : Scopes} {r : ResourceDecl}
    {i : ResourceIdentity} :
    m.resourceIdentity? scopes r = some i ↔ r.existing = false ∧
      ∃ type value, r.type.resourceType? = some type ∧ r.body.property? "name" = some value ∧
        value.isString = true ∧
        i = ⟨r.symbol, r.name.name, m.parentOf? scopes r.symbol, type.fullyQualified, value⟩ := by
  rw [← deploymentParent?_eq_parentOf?]
  unfold resourceIdentity? Body.stringName?
  cases r.existing with
  | true => simp
  | false =>
    simp [Option.bind_eq_some_iff, Option.filter_eq_some_iff, and_assoc, eq_comm (b := i)]

theorem isNamed_eq_isSome (m : Model) (scopes : Scopes) (r : ResourceDecl) :
    r.isNamed = (m.resourceIdentity? scopes r).isSome := by
  rw [Bool.eq_iff_iff, Option.isSome_iff_exists]
  simp only [resourceIdentity?_eq_some_iff, ResourceDecl.isNamed, Bool.and_eq_true,
    Bool.not_eq_true', Option.isSome_iff_exists, Option.any_eq_true]
  constructor
  · rintro ⟨⟨deployed, type, htype⟩, value, hvalue, string⟩
    exact ⟨_, deployed, type, value, htype, hvalue, string, rfl⟩
  · rintro ⟨-, deployed, type, value, htype, hvalue, string, -⟩
    exact ⟨⟨deployed, type, htype⟩, value, hvalue, string⟩

theorem resourceReports_eq_twinReports (m : Model) (scopes : Scopes) :
    reportDuplicates (m.resourceIdentities scopes) (fun group i =>
      .duplicateResources i.nameValue.span (group.map (·.name))) = m.twinReports scopes := by
  rw [reportDuplicates_eq_reportClasses, resourceIdentities, twinReports]
  refine reportClasses_filterMap _ (isNamed_eq_isSome m scopes) ?_ ?_
  · intro r s i j hi hj
    obtain ⟨-, t, v, ht, hv, -, rfl⟩ := resourceIdentity?_eq_some_iff.mp hi
    obtain ⟨-, t', v', ht', hv', -, rfl⟩ := resourceIdentity?_eq_some_iff.mp hj
    change ResourceIdentity.same _ _ = _
    simp [ResourceIdentity.same, twins, Body.likeNames, ht, ht', hv, hv']
  · intro pairs hpairs p hp
    have name_eq : ∀ q ∈ pairs, q.2.name = q.1.name.name := by
      intro q hq
      obtain ⟨-, t, v, -, -, -, h⟩ := resourceIdentity?_eq_some_iff.mp (hpairs q hq)
      rw [h]
    obtain ⟨-, t, v, -, hv, -, h⟩ := resourceIdentity?_eq_some_iff.mp (hpairs p hp)
    simp [Body.nameSpan, hv, h]
    exact congrArg _ (List.map_congr_left name_eq)

/-! ## Modules -/

/-- Whether the scope of a module is known and its name is a string. -/
def isNamedModule (scopes : Scopes) (d : ModuleDecl) : Bool :=
  scopes[d.symbol]?.isSome && (d.body.property? "name").any Expr.isString

/-- Two modules in scopes of one kind, with like arguments of the calls that give the scopes, and
like names. -/
def moduleTwins (scopes : Scopes) (d e : ModuleDecl) : Bool :=
  scopes[d.symbol]?.map (·.kind) == scopes[e.symbol]?.map (·.kind) &&
    ModuleIdentity.alikeScopes (scopeArgs? d.body) (scopeArgs? e.body) && d.body.likeNames e.body

theorem moduleTwins_equivalence (scopes : Scopes) :
    Equivalence fun d e : { d : ModuleDecl // isNamedModule scopes d = true } =>
      moduleTwins scopes d e = true := by
  refine equivalence_of_kernel (fun d => (scopes[d.1.symbol]?.map (·.kind),
    (scopeArgs? d.1.body).map (List.map Expr.normalForm),
    (d.1.body.property? "name").map Expr.normalForm)) ?_
  rintro ⟨d, hd⟩ ⟨e, he⟩
  simp only [isNamedModule, Bool.and_eq_true] at hd he
  simp [moduleTwins, Body.likeNames_iff hd.2 he.2, ModuleIdentity.alikeScopes_iff_normalForm_eq,
    and_assoc]

/-- Each named module with a twin is reported at its name, together with its twins. -/
def moduleTwinReports (m : Model) (scopes : Scopes) : List Diagnostic :=
  reportClasses (moduleTwins scopes) (m.program.modules.filter (isNamedModule scopes))
    fun group d => .duplicateModules d.body.nameSpan (group.map (·.name.name))

theorem moduleIdentity?_eq_some_iff {scopes : Scopes} {d : ModuleDecl} {i : ModuleIdentity} :
    moduleIdentity? scopes d = some i ↔
      ∃ scope value, scopes[d.symbol]? = some scope ∧ d.body.property? "name" = some value ∧
        value.isString = true ∧
        i = ⟨d.symbol, d.name.name, scope.kind, scopeArgs? d.body, value⟩ := by
  unfold moduleIdentity? Body.stringName?
  simp [Option.bind_eq_some_iff, Option.filter_eq_some_iff, and_assoc, eq_comm (b := i)]

theorem isNamedModule_eq_isSome (scopes : Scopes) (d : ModuleDecl) :
    isNamedModule scopes d = (moduleIdentity? scopes d).isSome := by
  rw [Bool.eq_iff_iff, Option.isSome_iff_exists]
  simp only [moduleIdentity?_eq_some_iff, isNamedModule, Bool.and_eq_true,
    Option.isSome_iff_exists, Option.any_eq_true]
  constructor
  · rintro ⟨⟨scope, hscope⟩, value, hvalue, string⟩
    exact ⟨_, scope, value, hscope, hvalue, string, rfl⟩
  · rintro ⟨-, scope, value, hscope, hvalue, string, -⟩
    exact ⟨⟨scope, hscope⟩, value, hvalue, string⟩

theorem moduleReports_eq_moduleTwinReports (m : Model) (scopes : Scopes) :
    reportDuplicates (m.moduleIdentities scopes) (fun group i =>
      .duplicateModules i.nameValue.span (group.map (·.name))) = m.moduleTwinReports scopes := by
  rw [reportDuplicates_eq_reportClasses, moduleIdentities, moduleTwinReports]
  refine reportClasses_filterMap _ (isNamedModule_eq_isSome scopes) ?_ ?_
  · intro d e i j hi hj
    obtain ⟨s, v, hs, hv, -, rfl⟩ := moduleIdentity?_eq_some_iff.mp hi
    obtain ⟨s', v', hs', hv', -, rfl⟩ := moduleIdentity?_eq_some_iff.mp hj
    change ModuleIdentity.same _ _ = _
    simp [ModuleIdentity.same, moduleTwins, Body.likeNames, hs, hs', hv, hv']
  · intro pairs hpairs p hp
    have name_eq : ∀ q ∈ pairs, q.2.name = q.1.name.name := by
      intro q hq
      obtain ⟨s, v, -, -, -, h⟩ := moduleIdentity?_eq_some_iff.mp (hpairs q hq)
      rw [h]
    obtain ⟨s, v, -, hv, -, h⟩ := moduleIdentity?_eq_some_iff.mp (hpairs p hp)
    simp [Body.nameSpan, hv, h]
    exact congrArg _ (List.map_congr_left name_eq)

/-- What is reported is what pairwise comparison finds, and that puts the declarations compared
into classes. -/
theorem duplicateNames_eq_twinReports (m : Model) (resourceScopes moduleScopes : Scopes) :
    m.duplicateNames resourceScopes moduleScopes =
      m.twinReports resourceScopes ++ m.moduleTwinReports moduleScopes ∧
    (Equivalence fun r s : { r : ResourceDecl // r.isNamed = true } =>
      m.twins resourceScopes r s = true) ∧
    Equivalence fun d e : { d : ModuleDecl // isNamedModule moduleScopes d = true } =>
      moduleTwins moduleScopes d e = true := by
  refine ⟨?_, m.twins_equivalence resourceScopes, moduleTwins_equivalence moduleScopes⟩
  rw [duplicateNames, resourceReports_eq_twinReports, moduleReports_eq_moduleTwinReports]

end Model

end Preflight
