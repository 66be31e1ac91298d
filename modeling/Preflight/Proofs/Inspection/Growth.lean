import Mathlib.Data.List.Perm.Subperm
import Preflight.Proofs.Check.Codes
import Preflight.Proofs.Check.SharedIdentity

/-! # Programs that grow

Findings about a declaration by itself stay when others are added. Of shared identities each member
is reported once whatever the order, so what grows with the program is the list of names. -/

namespace Preflight
set_option autoImplicit false

variable {α β : Type}

theorem filterMap_subperm {l l' : List α} (f : α → Option β) (h : l.Subperm l') :
    (l.filterMap f).Subperm (l'.filterMap f) := by
  obtain ⟨kept, hperm, hsub⟩ := h
  exact ⟨kept.filterMap f, hperm.filterMap f, hsub.filterMap f⟩

theorem map_subperm {l l' : List α} (f : α → β) (h : l.Subperm l') :
    (l.map f).Subperm (l'.map f) := by
  obtain ⟨kept, hperm, hsub⟩ := h
  exact ⟨kept.map f, hperm.map f, hsub.map f⟩

/-! ## Members of classes -/

section

variable [BEq α]

/-- Lists that cover all items, each with just one of the leaders, hold each item once. -/
theorem flatMap_filter_perm {leaders : List α}
    (unlike : leaders.Pairwise fun x y => (x == y) = false) [EquivBEq α] {items : List α}
    (covered : ∀ x ∈ items, leaders.any (· == x) = true) :
    (leaders.flatMap fun leader => items.filter (leader == ·)).Perm items := by
  induction items with
  | nil => simp
  | cons x items ih =>
    rw [List.forall_mem_cons] at covered
    obtain ⟨leader, hleader, hx⟩ := List.any_eq_true.mp covered.1
    obtain ⟨before, after, rfl⟩ := List.append_of_mem hleader
    rw [List.pairwise_append, List.pairwise_cons] at unlike
    obtain ⟨-, ⟨hafter, -⟩, hbefore⟩ := unlike
    -- `x` is taken in by its own leader only
    have others : ∀ y ∈ before ++ after, (x :: items).filter (y == ·) = items.filter (y == ·) := by
      intro y hy
      refine List.filter_cons_of_neg ?_
      rw [← BEq.congr_right hx]
      rcases List.mem_append.mp hy with hy | hy
      · simp [hbefore y hy leader List.mem_cons_self]
      · rw [BEq.comm]
        simp [hafter y hy]
    have hown : (x :: items).filter (leader == ·) = x :: items.filter (leader == ·) :=
      List.filter_cons_of_pos hx
    rw [List.flatMap_append, List.flatMap_cons, hown,
      List.flatMap_congr fun y hy => others y (List.mem_append_left _ hy),
      List.flatMap_congr fun y hy => others y (List.mem_append_right _ hy)]
    refine List.perm_middle.trans (List.Perm.cons x ?_)
    simpa using ih covered.2

/-- The names that are listed in a finding about `x`. -/
def listed (name : α → String) (items : List α) (x : α) : List String :=
  (items.filter (x == ·)).map name

def isShared (items : List α) (x : α) : Bool := 1 < (items.filter (x == ·)).length

variable [EquivBEq α]

theorem filter_eq_of_mem_classes {items group : List α} (h : group ∈ classes (· == ·) items)
    {x : α} (hx : x ∈ group) : group = items.filter (x == ·) := by
  obtain ⟨leader, -, rfl⟩ := List.mem_map.mp h
  exact List.filter_congr fun y _ => BEq.congr_left (List.mem_filter.mp hx).2

theorem flatten_classes_perm (items : List α) : (classes (· == ·) items).flatten.Perm items := by
  rw [classes, ← List.flatMap_def]
  refine flatMap_filter_perm (leaders_pairwise items) fun x hx => ?_
  rw [any_leaders_eq]
  exact List.any_eq_true.mpr ⟨x, hx, BEq.rfl⟩

/-- Each item that is shared is reported once, with all items that are the same. -/
theorem reportClasses_perm (items : List α) (report : List α → α → Diagnostic) :
    (reportClasses (· == ·) items report).Perm
      ((items.filter (isShared items)).map fun x => report (items.filter (x == ·)) x) := by
  have members : ∀ groups : List (List α), (∀ group ∈ groups, group ∈ classes (· == ·) items) →
      (groups.filter (1 < ·.length)).flatMap (fun group => group.map (report group)) =
        (groups.flatten.filter (isShared items)).map fun x => report (items.filter (x == ·)) x := by
    intro groups hgroups
    induction groups with
    | nil => rfl
    | cons group groups ih =>
      rw [List.forall_mem_cons] at hgroups
      have hgroup : ∀ x ∈ group, group = items.filter (x == ·) := fun x hx =>
        filter_eq_of_mem_classes hgroups.1 hx
      rw [List.flatten_cons, List.filter_append, List.map_append, ← ih hgroups.2, List.filter_cons]
      have hshared : ∀ x ∈ group, isShared items x = decide (1 < group.length) := by
        intro x hx
        rw [isShared, ← hgroup x hx]
      rw [List.filter_congr hshared]
      by_cases hlength : 1 < group.length
      · simp only [hlength, decide_true, if_true, List.flatMap_cons, List.filter_true]
        congr 1
        exact List.map_congr_left fun x hx => by rw [← hgroup x hx]
      · simp [hlength]
  rw [reportClasses, members _ fun _ h => h]
  exact ((flatten_classes_perm items).filter _).map _

/-! ## Listings -/

/-- The findings in `found` are those about some members of `items`, once each. About the same
members there are findings in `found'` that list all of these names and maybe more. -/
def ListingsGrow (name : α → String) (finding : α → List String → Diagnostic)
    (items items' : List α) (found found' : List Diagnostic) : Prop :=
  ∃ members : List α, members.Subperm items ∧
    found.Perm (members.map fun x => finding x (listed name items x)) ∧
    (members.map fun x => finding x (listed name items' x)).Subperm found' ∧
    ∀ x ∈ members, (listed name items x).Subperm (listed name items' x)

theorem listingsGrow_reportDuplicates [Hashable α] [LawfulHashable α] (name : α → String)
    (finding : α → List String → Diagnostic) {items items' : List α} (h : items.Subperm items') :
    ListingsGrow name finding items items'
      (reportDuplicates items fun group x => finding x (group.map name))
      (reportDuplicates items' fun group x => finding x (group.map name)) := by
  have hsame (x : α) : (items.filter (x == ·)).Subperm (items'.filter (x == ·)) := h.filter _
  have hshared : (items.filter (isShared items)).Subperm (items'.filter (isShared items')) := by
    refine (h.filter (isShared items)).trans (List.Sublist.subperm ?_)
    refine List.monotone_filter_right items' fun x hx => ?_
    have hlength := (hsame x).length_le
    simp only [isShared, decide_eq_true_eq] at hx ⊢
    omega
  refine ⟨items.filter (isShared items), List.filter_sublist.subperm, ?_, ?_, ?_⟩
  · rw [reportDuplicates_eq_reportClasses]
    exact reportClasses_perm items _
  · have hperm := reportClasses_perm items' fun group x => finding x (group.map name)
    rw [reportDuplicates_eq_reportClasses]
    exact (map_subperm _ hshared).trans hperm.symm.subperm
  · exact fun x _ => map_subperm name (hsame x)

end

/-- What a finding tells besides its message. -/
def Diagnostic.place (d : Diagnostic) : String × Level × Span := (d.code, d.level, d.span)

theorem ListingsGrow.places_subperm {name : α → String} {finding : α → List String → Diagnostic}
    [BEq α] {items items' : List α} {found found' : List Diagnostic}
    (hplace : ∀ x names names', (finding x names).place = (finding x names').place)
    (h : ListingsGrow name finding items items' found found') :
    (found.map Diagnostic.place).Subperm (found'.map Diagnostic.place) := by
  obtain ⟨members, -, hfound, hfound', -⟩ := h
  have hplaces : (members.map fun x => finding x (listed name items x)).map Diagnostic.place =
      (members.map fun x => finding x (listed name items' x)).map Diagnostic.place := by
    rw [List.map_map, List.map_map]
    exact List.map_congr_left fun x _ => hplace x _ _
  refine (hfound.map _).subperm.trans ?_
  rw [hplaces]
  exact map_subperm _ hfound'

theorem ListingsGrow.none {name : α → String} {finding : α → List String → Diagnostic}
    [BEq α] (items items' : List α) : ListingsGrow name finding items items' [] [] :=
  ⟨[], List.nil_subperm, .nil, List.nil_subperm, by simp⟩

/-! ## Models -/

/-- The declarations of `m` are among those of `n`, and what is known beside the trees is the
same. -/
structure Model.Within (m n : Model) : Prop where
  resources : m.program.resources.Subperm n.program.resources
  modules : m.program.modules.Subperm n.program.modules
  symbols : m.symbols = n.symbols
  ancestors : m.ancestors = n.ancestors
  resourceScopes : m.resourceScopes = n.resourceScopes
  moduleScopes : m.moduleScopes = n.moduleScopes

namespace Model.Within

variable {m n : Model}

theorem reverse (h : m.Within n) (resources : m.program.resources.Perm n.program.resources)
    (modules : m.program.modules.Perm n.program.modules) : n.Within m :=
  ⟨resources.symm.subperm, modules.symm.subperm, h.symbols.symm, h.ancestors.symm,
    h.resourceScopes.symm, h.moduleScopes.symm⟩

theorem resourceIdentities_subperm (h : m.Within n) :
    (m.resourceIdentities m.resourceScopes).Subperm (n.resourceIdentities n.resourceScopes) := by
  have hidentity : m.resourceIdentity? m.resourceScopes = n.resourceIdentity? n.resourceScopes := by
    funext r
    rw [resourceIdentity?, deploymentParent?, h.symbols, h.ancestors, h.resourceScopes]
    rfl
  rw [resourceIdentities, hidentity]
  exact filterMap_subperm _ h.resources

theorem moduleIdentities_subperm (h : m.Within n) :
    (m.moduleIdentities m.moduleScopes).Subperm (n.moduleIdentities n.moduleScopes) := by
  rw [moduleIdentities, h.moduleScopes]
  exact filterMap_subperm _ h.modules

theorem incorrectQualifiers_subperm (h : m.Within n) :
    m.incorrectQualifiers.Subperm n.incorrectQualifiers := by
  have hfinding : m.qualifierFinding? = n.qualifierFinding? := by
    funext r
    rw [qualifierFinding?, h.ancestors]
    rfl
  rw [incorrectQualifiers, hfinding]
  exact filterMap_subperm _ h.resources

theorem resourceLoopInvariants_subperm (h : m.Within n) :
    m.resourceLoopInvariants.Subperm n.resourceLoopInvariants := by
  rw [resourceLoopInvariants, h.symbols]
  exact filterMap_subperm _ (h.resources.filter _)

theorem moduleLoopInvariants_subperm (h : m.Within n) :
    m.moduleLoopInvariants.Subperm n.moduleLoopInvariants := by
  rw [moduleLoopInvariants, h.symbols]
  exact filterMap_subperm _ h.modules

end Model.Within

namespace Model

def resourceDuplicates (m : Model) : List Diagnostic :=
  reportDuplicates (m.resourceIdentities m.resourceScopes) fun group i =>
    .duplicateResources i.nameValue.span (group.map (·.name))

def moduleDuplicates (m : Model) : List Diagnostic :=
  reportDuplicates (m.moduleIdentities m.moduleScopes) fun group i =>
    .duplicateModules i.nameValue.span (group.map (·.name))

/-- The findings that do not depend on other declarations. -/
def separateFindings (m : Model) (options : Options) : List Diagnostic :=
  (if options.detectIncorrectlyFormattedNames then m.incorrectQualifiers else []) ++
  (if options.detectLoopInvariantProperties then
    m.resourceLoopInvariants ++ m.moduleLoopInvariants else [])

theorem findings_eq (m : Model) (options : Options) :
    m.findings options =
      (if options.detectDuplicateNames then m.resourceDuplicates else []) ++
      (if options.detectDuplicateNames then m.moduleDuplicates else []) ++
      m.separateFindings options := by
  cases h : options.detectDuplicateNames <;>
    simp [findings, Inspection.run, Inspection.runExternal, ScopeResolver.precomputed,
      Inspection.builtIn, duplicateNames, resourceDuplicates, moduleDuplicates, separateFindings, h]

theorem filter_findings (m : Model) (options : Options) :
    (m.findings options).filter (·.code ∈ ["BCP121"]) =
      (if options.detectDuplicateNames then m.resourceDuplicates else []) ∧
    (m.findings options).filter (·.code ∈ ["BCP122"]) =
      (if options.detectDuplicateNames then m.moduleDuplicates else []) ∧
    (m.findings options).filter (·.code ∈ ["BCP169", "BCP170", "BCP179"]) =
      m.separateFindings options := by
  have resources : Stamped ["BCP121"] .error
      (if options.detectDuplicateNames then m.resourceDuplicates else []) :=
    .ite _ (m.stamped_resourceDuplicates m.resourceScopes)
  have modules : Stamped ["BCP122"] .error
      (if options.detectDuplicateNames then m.moduleDuplicates else []) :=
    .ite _ (m.stamped_moduleDuplicates m.moduleScopes)
  have qualifiers := m.stamped_incorrectQualifiers.ite options.detectIncorrectlyFormattedNames
  have loops := m.stamped_loopInvariants.ite options.detectLoopInvariantProperties
  simp only [findings_eq, separateFindings, List.filter_append]
  refine ⟨?_, ?_, ?_⟩
  · rw [resources.filter_eq_self (by simp), modules.filter_eq_nil (by simp),
      qualifiers.filter_eq_nil (by simp), loops.filter_eq_nil (by simp)]
    simp
  · rw [resources.filter_eq_nil (by simp), modules.filter_eq_self (by simp),
      qualifiers.filter_eq_nil (by simp), loops.filter_eq_nil (by simp)]
    simp
  · rw [resources.filter_eq_nil (by simp), modules.filter_eq_nil (by simp),
      qualifiers.filter_eq_self (by simp), loops.filter_eq_self (by simp)]
    simp

end Model

namespace Model.Within

variable {m n : Model}

theorem separateFindings_subperm (h : m.Within n) (options : Options) :
    (m.separateFindings options).Subperm (n.separateFindings options) := by
  refine .append ?_ ?_
  · cases options.detectIncorrectlyFormattedNames with
    | true => exact h.incorrectQualifiers_subperm
    | false => exact List.nil_subperm
  · cases options.detectLoopInvariantProperties with
    | true => exact h.resourceLoopInvariants_subperm.append h.moduleLoopInvariants_subperm
    | false => exact List.nil_subperm

theorem resourceListings (h : m.Within n) (c : Bool) :
    ListingsGrow ResourceIdentity.name (fun i => .duplicateResources i.nameValue.span)
      (m.resourceIdentities m.resourceScopes) (n.resourceIdentities n.resourceScopes)
      (if c then m.resourceDuplicates else []) (if c then n.resourceDuplicates else []) := by
  cases c with
  | true => exact listingsGrow_reportDuplicates _ _ h.resourceIdentities_subperm
  | false => exact .none _ _

theorem moduleListings (h : m.Within n) (c : Bool) :
    ListingsGrow ModuleIdentity.name (fun i => .duplicateModules i.nameValue.span)
      (m.moduleIdentities m.moduleScopes) (n.moduleIdentities n.moduleScopes)
      (if c then m.moduleDuplicates else []) (if c then n.moduleDuplicates else []) := by
  cases c with
  | true => exact listingsGrow_reportDuplicates _ _ h.moduleIdentities_subperm
  | false => exact .none _ _

theorem places_subperm (h : m.Within n) (options : Options) :
    ((m.findings options).map Diagnostic.place).Subperm
      ((n.findings options).map Diagnostic.place) := by
  simp only [findings_eq, List.map_append]
  refine .append (.append ?_ ?_) ?_
  · exact (h.resourceListings _).places_subperm fun _ _ _ => rfl
  · exact (h.moduleListings _).places_subperm fun _ _ _ => rfl
  · exact map_subperm _ (h.separateFindings_subperm options)

/-- Adding declarations hides no finding, and moving them changes none; only the lists of names in
findings about shared identities may become longer. -/
theorem findings_grow (h : m.Within n) (options : Options) :
    ((m.findings options).map Diagnostic.place).Subperm
      ((n.findings options).map Diagnostic.place) ∧
    (m.program.resources.Perm n.program.resources → m.program.modules.Perm n.program.modules →
      ((m.findings options).map Diagnostic.place).Perm
        ((n.findings options).map Diagnostic.place)) ∧
    ((m.findings options).filter (·.code ∈ ["BCP169", "BCP170", "BCP179"])).Subperm
      ((n.findings options).filter (·.code ∈ ["BCP169", "BCP170", "BCP179"])) ∧
    ListingsGrow ResourceIdentity.name (fun i => .duplicateResources i.nameValue.span)
      (m.resourceIdentities m.resourceScopes) (n.resourceIdentities n.resourceScopes)
      ((m.findings options).filter (·.code ∈ ["BCP121"]))
      ((n.findings options).filter (·.code ∈ ["BCP121"])) ∧
    ListingsGrow ModuleIdentity.name (fun i => .duplicateModules i.nameValue.span)
      (m.moduleIdentities m.moduleScopes) (n.moduleIdentities n.moduleScopes)
      ((m.findings options).filter (·.code ∈ ["BCP122"]))
      ((n.findings options).filter (·.code ∈ ["BCP122"])) := by
  obtain ⟨resources, modules, separate⟩ := m.filter_findings options
  obtain ⟨resources', modules', separate'⟩ := n.filter_findings options
  rw [resources, modules, separate, resources', modules', separate']
  refine ⟨h.places_subperm options, ?_, h.separateFindings_subperm options, h.resourceListings _,
    h.moduleListings _⟩
  intro hresources hmodules
  exact (h.places_subperm options).antisymm ((h.reverse hresources hmodules).places_subperm options)

end Model.Within

namespace Model

/-- Stores with the given symbolic names, all with one name to be deployed under. -/
def equalStores (names : List String) : Model where
  program := {
    file := "main.bicep"
    indices := 0
    modules := []
    resources := names.map fun name => {
      span := {}
      symbol := ⟨0⟩
      name := ⟨{}, name⟩
      typeText := "Ns/stores"
      existing := false
      type := .resource { types := ["Ns/stores"] } .any
      body := .object (.object {} [⟨{}, "name", .string {} ["s"] []⟩]) } }
  symbols := {}

theorem equalStores_findings_grow :
    (equalStores ["a", "b"]).Within (equalStores ["c", "b", "a"]) ∧
    (((equalStores ["a", "b"]).findings {}).map Diagnostic.place).Subperm
      (((equalStores ["c", "b", "a"]).findings {}).map Diagnostic.place) ∧
    ((equalStores ["a", "b"]).findings {}).length = 2 ∧
    ((equalStores ["c", "b", "a"]).findings {}).length = 3 := by
  have kept : (["a", "b"] : List String).Subperm ["c", "b", "a"] :=
    ⟨["b", "a"], .swap "a" "b" [], .cons "c" (.refl _)⟩
  have within : (equalStores ["a", "b"]).Within (equalStores ["c", "b", "a"]) :=
    ⟨map_subperm _ kept, .refl [], rfl, rfl, rfl, rfl⟩
  -- hashes do not evaluate, so the groups are told by comparison
  refine ⟨within, (within.findings_grow {}).1, ?_, ?_⟩
  · rw [findings_eq, resourceDuplicates, moduleDuplicates, reportDuplicates_eq_reportClasses,
      reportDuplicates_eq_reportClasses]
    decide +kernel
  · rw [findings_eq, resourceDuplicates, moduleDuplicates, reportDuplicates_eq_reportClasses,
      reportDuplicates_eq_reportClasses]
    decide +kernel

end Model

end Preflight
