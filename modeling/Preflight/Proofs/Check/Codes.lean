import Mathlib.Data.Option.Basic
import Preflight.Inspection

/-! # Codes of the checks

Each check has codes of its own, and reports at one level. -/

namespace Preflight
set_option autoImplicit false

/-- All findings are of one level and have one of the codes. -/
def Stamped (codes : List String) (level : Level) (found : List Diagnostic) : Prop :=
  ∀ d ∈ found, d.code ∈ codes ∧ d.level = level

namespace Stamped

variable {codes codes' : List String} {level : Level} {found found' : List Diagnostic}

theorem append (h : Stamped codes level found) (h' : Stamped codes level found') :
    Stamped codes level (found ++ found') := by
  intro d hd
  rcases List.mem_append.mp hd with hd | hd
  · exact h d hd
  · exact h' d hd

theorem mono (h : Stamped codes level found) (hsub : codes ⊆ codes') :
    Stamped codes' level found :=
  fun d hd => ⟨hsub (h d hd).1, (h d hd).2⟩

theorem ite (c : Bool) (h : Stamped codes level found) :
    Stamped codes level (if c then found else []) := by
  cases c with
  | true => exact h
  | false => exact fun d hd => nomatch hd

theorem filterMap {α : Type} {finding? : α → Option Diagnostic} (items : List α)
    (h : ∀ x d, finding? x = some d → d.code ∈ codes ∧ d.level = level) :
    Stamped codes level (items.filterMap finding?) := by
  intro d hd
  obtain ⟨x, -, hx⟩ := List.mem_filterMap.mp hd
  exact h x d hx

theorem filter_eq_self (h : Stamped codes level found) {wanted : List String}
    (hsub : codes ⊆ wanted) : found.filter (·.code ∈ wanted) = found :=
  List.filter_eq_self.mpr fun d hd => decide_eq_true (hsub (h d hd).1)

theorem filter_eq_nil (h : Stamped codes level found) {wanted : List String}
    (hdisjoint : ∀ code ∈ codes, code ∉ wanted) : found.filter (·.code ∈ wanted) = [] :=
  List.filter_eq_nil_iff.mpr fun d hd => by simpa using hdisjoint _ (h d hd).1

end Stamped

theorem stamped_reportDuplicates {α : Type} [BEq α] [Hashable α] {code : String} {level : Level}
    (items : List α) {report : List α → α → Diagnostic}
    (h : ∀ group x, (report group x).code = code ∧ (report group x).level = level) :
    Stamped [code] level (reportDuplicates items report) := by
  intro d hd
  obtain ⟨group, -, hd⟩ := List.mem_flatMap.mp hd
  obtain ⟨x, -, rfl⟩ := List.mem_map.mp hd
  exact ⟨by rw [(h group x).1, List.mem_singleton], (h group x).2⟩

theorem VariationRule.finding?_stamped {rule : VariationRule} {t : SymbolTable} {name : Ident}
    {type : TypeRef} {body : Body} {d : Diagnostic}
    (h : rule.finding? t name type body = some d) : d.code ∈ ["BCP179"] ∧ d.level = .warning := by
  simp only [finding?, Option.bind_eq_bind, Option.bind_eq_some_iff] at h
  obtain ⟨head, -, object, -, -, -, h⟩ := h
  cases h
  exact ⟨List.mem_singleton_self _, rfl⟩

namespace Model

/-- The findings of the checks that the options leave on, over the scopes of the model. -/
def findings (m : Model) (options : Options) : List Diagnostic :=
  (({ options } : Inspection).run m).diagnostics

variable (m : Model)

theorem stamped_resourceDuplicates (scopes : Scopes) :
    Stamped ["BCP121"] .error (reportDuplicates (m.resourceIdentities scopes) fun group i =>
      .duplicateResources i.nameValue.span (group.map (·.name))) :=
  stamped_reportDuplicates _ fun _ _ => ⟨rfl, rfl⟩

theorem stamped_moduleDuplicates (scopes : Scopes) :
    Stamped ["BCP122"] .error (reportDuplicates (m.moduleIdentities scopes) fun group i =>
      .duplicateModules i.nameValue.span (group.map (·.name))) :=
  stamped_reportDuplicates _ fun _ _ => ⟨rfl, rfl⟩

theorem stamped_duplicateNames (resourceScopes moduleScopes : Scopes) :
    Stamped ["BCP121", "BCP122"] .error (m.duplicateNames resourceScopes moduleScopes) := by
  have resources := m.stamped_resourceDuplicates resourceScopes
  have modules := m.stamped_moduleDuplicates moduleScopes
  exact (resources.mono (by simp)).append (modules.mono (by simp))

theorem stamped_incorrectQualifiers :
    Stamped ["BCP169", "BCP170"] .error m.incorrectQualifiers := by
  refine .filterMap _ fun r d hr => ?_
  simp only [qualifierFinding?, Option.bind_eq_bind, Option.bind_eq_some_iff] at hr
  obtain ⟨type, -, value, -, hr⟩ := hr
  split at hr
  · split at hr
    · obtain ⟨-, -, h⟩ := Option.bind_eq_some_iff.mp hr
      cases h
      exact ⟨by simp [Diagnostic.qualifiedChild], rfl⟩
    · obtain ⟨literal, -, h⟩ := Option.bind_eq_some_iff.mp hr
      obtain ⟨-, -, h⟩ := Option.bind_eq_some_iff.mp h
      cases h
      exact ⟨by simp [Diagnostic.qualifierCount], rfl⟩
  · cases hr

theorem stamped_loopInvariants :
    Stamped ["BCP179"] .warning (m.resourceLoopInvariants ++ m.moduleLoopInvariants) :=
  Stamped.append (.filterMap _ fun _ _ => VariationRule.finding?_stamped)
    (.filterMap _ fun _ _ => VariationRule.finding?_stamped)

end Model

end Preflight
