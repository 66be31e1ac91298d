import Mathlib.Data.List.Flatten
import Preflight.Proofs.Inspection.Growth
import Preflight.Proofs.Inspection.Sink

/-! # Whom findings are about

Each finding is about one declaration. No check makes two findings of its own about the same one. -/

namespace Preflight
set_option autoImplicit false

variable {α β : Type}

/-- A finding about each member of a group, with the names of the group. -/
def sharedReports [BEq α] [Hashable α] (items : List α) (name : α → String)
    (finding : α → List String → Diagnostic) : List (String × Diagnostic) :=
  (Grouping.ofList items).duplicates.flatMap fun group =>
    group.map fun x => (name x, finding x (group.map name))

def ownReports (items : List α) (name : α → String) (finding? : α → Option Diagnostic) :
    List (String × Diagnostic) :=
  items.filterMap fun x => (finding? x).map (name x, ·)

namespace Model

/-- The findings of one check, each with the name of the declaration that it is about. -/
def reportsOf (m : Model) : Options.Key → List (String × Diagnostic)
  | .detectDuplicateNames =>
    sharedReports (m.resourceIdentities m.resourceScopes) (·.name)
      (fun i => .duplicateResources i.nameValue.span) ++
    sharedReports (m.moduleIdentities m.moduleScopes) (·.name)
      fun i => .duplicateModules i.nameValue.span
  | .detectIncorrectlyFormattedNames =>
    ownReports m.program.resources (·.name.name) m.qualifierFinding?
  | .detectLoopInvariantProperties =>
    ownReports (m.program.resources.filter (!·.existing)) (·.name.name)
      (fun r => VariationRule.resource.finding? m.symbols r.name r.type r.body) ++
    ownReports m.program.modules (·.name.name) fun d =>
      VariationRule.module.finding? m.symbols d.name d.type d.body

def reports (m : Model) : List (String × Diagnostic) := Options.Key.all.flatMap m.reportsOf

end Model

/-- The names of the resources and modules, in the order of the text. -/
def Program.names (p : Program) : List String :=
  p.resources.map (·.name.name) ++ p.modules.map (·.name.name)

section

variable [BEq α] [Hashable α] {items : List α} {name : α → String}

theorem map_snd_sharedReports (finding : α → List String → Diagnostic) :
    (sharedReports items name finding).map (·.2) =
      reportDuplicates items fun group x => finding x (group.map name) := by
  simp [sharedReports, reportDuplicates, List.map_flatMap, Function.comp_def]

theorem mem_sharedReports [EquivBEq α] [LawfulHashable α]
    {finding : α → List String → Diagnostic} {p : String × Diagnostic}
    (h : p ∈ sharedReports items name finding) :
    ∃ x ∈ items, ∃ names, p = (name x, finding x names) := by
  obtain ⟨group, hgroup, h⟩ := List.mem_flatMap.mp h
  obtain ⟨x, hx, rfl⟩ := List.mem_map.mp h
  rw [Grouping.duplicates_ofList] at hgroup
  exact ⟨x, mem_of_mem_classes (List.mem_filter.mp hgroup).1 hx, _, rfl⟩

/-- Every item is in one group, so none is reported twice. -/
theorem names_sharedReports_subperm [EquivBEq α] [LawfulHashable α]
    (finding : α → List String → Diagnostic) :
    ((sharedReports items name finding).map (·.1)).Subperm (items.map name) := by
  have hnames : (sharedReports items name finding).map (·.1) =
      (Grouping.ofList items).duplicates.flatten.map name := by
    simp [sharedReports, Function.comp_def, List.map_flatten, List.flatMap_def]
  rw [hnames, Grouping.duplicates_ofList]
  refine map_subperm name ?_
  exact List.filter_sublist.flatten.subperm.trans (flatten_classes_perm items).subperm

end

section

variable {items : List α} {name : α → String} {finding? : α → Option Diagnostic}

theorem map_snd_ownReports :
    (ownReports items name finding?).map (·.2) = items.filterMap finding? := by
  simp [ownReports, List.map_filterMap, Function.comp_def]

theorem mem_ownReports {p : String × Diagnostic} (h : p ∈ ownReports items name finding?) :
    ∃ x ∈ items, finding? x = some p.2 ∧ p.1 = name x := by
  obtain ⟨x, hx, h⟩ := List.mem_filterMap.mp h
  obtain ⟨d, hd, rfl⟩ := Option.map_eq_some_iff.mp h
  exact ⟨x, hx, hd, rfl⟩

end

/-- Names that are kept by a selection come in the order of what was selected. -/
theorem map_filterMap_sublist {items : List α} {f : α → Option β} {name : α → String}
    {name' : β → String} (h : ∀ x y, f x = some y → name' y = name x) :
    ((items.filterMap f).map name').Sublist (items.map name) := by
  induction items with
  | nil => exact .slnil
  | cons x items ih =>
    cases hx : f x with
    | none =>
      rw [List.filterMap_cons_none hx]
      exact ih.cons _
    | some y =>
      rw [List.filterMap_cons_some hx, List.map_cons, List.map_cons, h x y hx]
      exact ih.cons_cons _

theorem names_ownReports_sublist (items : List α) (name : α → String)
    (finding? : α → Option Diagnostic) :
    ((ownReports items name finding?).map (·.1)).Sublist (items.map name) := by
  refine map_filterMap_sublist fun x p h => ?_
  obtain ⟨d, -, rfl⟩ := Option.map_eq_some_iff.mp h
  rfl

namespace Model

theorem map_snd_reportsOf (m : Model) (key : Options.Key) :
    (m.reportsOf key).map (·.2) = Sink.found m m.resourceScopes m.moduleScopes key := by
  cases key with
  | detectDuplicateNames =>
    rw [reportsOf, List.map_append, map_snd_sharedReports, map_snd_sharedReports]
    rfl
  | detectIncorrectlyFormattedNames => exact map_snd_ownReports
  | detectLoopInvariantProperties =>
    rw [reportsOf, List.map_append, map_snd_ownReports, map_snd_ownReports]
    rfl

/-- The findings of an inspection, told with whom they are about. -/
theorem map_snd_reports (m : Model) : m.reports.map (·.2) = m.inspect.diagnostics := by
  have hinspect : m.inspect.diagnostics = m.findings {} := rfl
  rw [hinspect, findings_eq_flatMap, reports, List.map_flatMap]
  exact List.flatMap_congr fun key _ => m.map_snd_reportsOf key

theorem code_of_mem_reportsOf {m : Model} {key : Options.Key} {p : String × Diagnostic}
    (h : p ∈ m.reportsOf key) : p.2.code ∈ key.codes := by
  obtain ⟨level, stamped⟩ := Sink.stamped_found m m.resourceScopes m.moduleScopes key
  rw [← map_snd_reportsOf] at stamped
  exact (stamped p.2 (List.mem_map_of_mem h)).1

/-- The codes tell which check made a finding. -/
theorem filter_reports (m : Model) (key : Options.Key) :
    m.reports.filter (·.2.code ∈ key.codes) = m.reportsOf key := by
  have hown : (m.reportsOf key).filter (·.2.code ∈ key.codes) = m.reportsOf key :=
    List.filter_eq_self.mpr fun p hp => decide_eq_true (code_of_mem_reportsOf hp)
  have hother : ∀ other, other ≠ key → (m.reportsOf other).filter (·.2.code ∈ key.codes) = [] := by
    intro other hne
    refine List.filter_eq_nil_iff.mpr fun p hp => ?_
    simpa using Options.Key.codes_disjoint hne _ (code_of_mem_reportsOf hp)
  cases key <;> simp [reports, Options.Key.all, hown, hother]

theorem names_resourceIdentities_sublist (m : Model) (scopes : Scopes) :
    ((m.resourceIdentities scopes).map (·.name)).Sublist
      (m.program.resources.map (·.name.name)) := by
  refine map_filterMap_sublist fun r i h => ?_
  obtain ⟨-, type, value, -, -, -, rfl⟩ := resourceIdentity?_eq_some_iff.mp h
  rfl

theorem names_moduleIdentities_sublist (m : Model) (scopes : Scopes) :
    ((m.moduleIdentities scopes).map (·.name)).Sublist
      (m.program.modules.map (·.name.name)) := by
  refine map_filterMap_sublist fun d i h => ?_
  obtain ⟨scope, value, -, -, -, rfl⟩ := moduleIdentity?_eq_some_iff.mp h
  rfl

theorem names_reportsOf_subperm (m : Model) (key : Options.Key) :
    ((m.reportsOf key).map (·.1)).Subperm m.program.names := by
  cases key with
  | detectDuplicateNames =>
    rw [reportsOf, List.map_append]
    refine .append ?_ ?_
    · exact (names_sharedReports_subperm _).trans
        (m.names_resourceIdentities_sublist _).subperm
    · exact (names_sharedReports_subperm _).trans (m.names_moduleIdentities_sublist _).subperm
  | detectIncorrectlyFormattedNames =>
    exact ((names_ownReports_sublist _ _ _).trans (List.sublist_append_left _ _)).subperm
  | detectLoopInvariantProperties =>
    rw [reportsOf, List.map_append]
    refine .append ?_ (names_ownReports_sublist _ _ _).subperm
    exact ((names_ownReports_sublist _ _ _).trans (List.filter_sublist.map _)).subperm

/-- Where no two declarations have one name, no check reports one of them twice. -/
theorem nodup_names_reportsOf {m : Model} (h : m.program.names.Nodup) (key : Options.Key) :
    ((m.reportsOf key).map (·.1)).Nodup := by
  obtain ⟨kept, hperm, hsub⟩ := m.names_reportsOf_subperm key
  exact hperm.nodup_iff.mp (hsub.nodup h)

/-! ## What is reported -/

/-- A check about names reports the string that the declaration is deployed under, and another one
the name of the declaration. -/
def Reported (key : Options.Key) (name : Ident) (body : Body) (s : Span) : Prop :=
  (key = .detectLoopInvariantProperties ∧ s = name.span) ∨
    key ≠ .detectLoopInvariantProperties ∧ ∃ value, body.property? "name" = some value ∧
      value.isString = true ∧ s = value.span

theorem qualifierFinding?_reported {m : Model} {r : ResourceDecl} {d : Diagnostic}
    (h : m.qualifierFinding? r = some d) :
    Reported .detectIncorrectlyFormattedNames r.name r.body d.span := by
  simp only [qualifierFinding?, Option.bind_eq_bind, Option.bind_eq_some_iff] at h
  obtain ⟨type, -, value, hvalue, h⟩ := h
  refine .inr ⟨by rintro ⟨⟩, value, hvalue, ?_⟩
  split at h
  next n segments holes =>
    refine ⟨rfl, ?_⟩
    split at h
    · obtain ⟨-, -, h⟩ := Option.bind_eq_some_iff.mp h
      cases h
      rfl
    · obtain ⟨literal, -, h⟩ := Option.bind_eq_some_iff.mp h
      obtain ⟨-, -, h⟩ := Option.bind_eq_some_iff.mp h
      cases h
      rfl
  next => cases h

theorem loopFinding?_reported {rule : VariationRule} {t : SymbolTable} {name : Ident}
    {type : TypeRef} {body : Body} {d : Diagnostic}
    (h : rule.finding? t name type body = some d) :
    Reported .detectLoopInvariantProperties name body d.span := by
  simp only [VariationRule.finding?, Option.bind_eq_bind, Option.bind_eq_some_iff] at h
  obtain ⟨head, -, object, -, -, -, h⟩ := h
  cases h
  exact .inl ⟨rfl, rfl⟩

/-- Each finding is about a resource or a module of the program, and about an existing resource
only if it is about the form of its name. -/
theorem about_of_mem_reportsOf {m : Model} {key : Options.Key} {p : String × Diagnostic}
    (h : p ∈ m.reportsOf key) :
    (∃ r ∈ m.program.resources, p.1 = r.name.name ∧ Reported key r.name r.body p.2.span ∧
      (r.existing = true → key = .detectIncorrectlyFormattedNames)) ∨
    ∃ d ∈ m.program.modules, p.1 = d.name.name ∧ Reported key d.name d.body p.2.span := by
  cases key with
  | detectDuplicateNames =>
    rcases List.mem_append.mp h with h | h
    · obtain ⟨i, hi, names, rfl⟩ := mem_sharedReports h
      obtain ⟨r, hr, hi⟩ := List.mem_filterMap.mp hi
      obtain ⟨hdeployed, type, value, -, hvalue, hstring, rfl⟩ :=
        resourceIdentity?_eq_some_iff.mp hi
      refine .inl ⟨r, hr, rfl, .inr ⟨nofun, value, hvalue, hstring, rfl⟩, fun hexisting => ?_⟩
      rw [hdeployed] at hexisting
      cases hexisting
    · obtain ⟨i, hi, names, rfl⟩ := mem_sharedReports h
      obtain ⟨d, hd, hi⟩ := List.mem_filterMap.mp hi
      obtain ⟨scope, value, -, hvalue, hstring, rfl⟩ := moduleIdentity?_eq_some_iff.mp hi
      exact .inr ⟨d, hd, rfl, .inr ⟨nofun, value, hvalue, hstring, rfl⟩⟩
  | detectIncorrectlyFormattedNames =>
    obtain ⟨r, hr, hfinding, hname⟩ := mem_ownReports h
    exact .inl ⟨r, hr, hname, qualifierFinding?_reported hfinding, fun _ => rfl⟩
  | detectLoopInvariantProperties =>
    rcases List.mem_append.mp h with h | h
    · obtain ⟨r, hr, hfinding, hname⟩ := mem_ownReports h
      obtain ⟨hr, hdeployed⟩ := List.mem_filter.mp hr
      refine .inl ⟨r, hr, hname, loopFinding?_reported hfinding, fun hexisting => ?_⟩
      rw [hexisting] at hdeployed
      cases hdeployed
    · obtain ⟨d, hd, hfinding, hname⟩ := mem_ownReports h
      exact .inr ⟨d, hd, hname, loopFinding?_reported hfinding⟩

end Model

end Preflight
