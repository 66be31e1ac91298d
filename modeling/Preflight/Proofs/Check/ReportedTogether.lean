import Preflight.Proofs.Blueprint.Written
import Preflight.Proofs.Check.SharedIdentity

/-! # Declarations that are reported together

Which pairs of declarations end up in one report, and what that says of the scopes of two modules:
calls are compared by their arguments, and anything else is not looked at. -/

namespace Preflight
set_option autoImplicit false

/-- Two declarations with identities that stand in one group of two or more. -/
def ReportedTogether {δ α : Type} [BEq α] [Hashable α] (identity? : δ → Option α)
    (declarations : List δ) (a b : δ) : Prop :=
  a ∈ declarations ∧ b ∈ declarations ∧ ∃ i j, identity? a = some i ∧ identity? b = some j ∧
    Grouping.Together (declarations.filterMap identity?) i j

section

variable {δ α : Type} [BEq α] [Hashable α] [EquivBEq α] [LawfulHashable α]
  {identity? : δ → Option α} {declarations : List δ} {a b : δ}

theorem ReportedTogether.identities (h : ReportedTogether identity? declarations a b) :
    ∃ i j, identity? a = some i ∧ identity? b = some j ∧ (i == j) = true := by
  obtain ⟨-, -, i, j, hi, hj, together⟩ := h
  exact ⟨i, j, hi, hj, together.beq⟩

theorem reportedTogether_iff (h : [a, b].Sublist declarations) :
    ReportedTogether identity? declarations a b ↔
      ∃ i j, identity? a = some i ∧ identity? b = some j ∧ (i == j) = true := by
  constructor
  · exact ReportedTogether.identities
  · rintro ⟨i, j, hi, hj, hij⟩
    refine ⟨h.subset (by simp), h.subset (by simp), i, j, hi, hj, ?_⟩
    apply Grouping.together_of_sublist _ hij
    have hpair : [a, b].filterMap identity? = [i, j] := by simp [hi, hj]
    rw [← hpair]
    exact h.filterMap identity?

end

namespace Model

def ResourcesTogether (m : Model) (scopes : Scopes) : ResourceDecl → ResourceDecl → Prop :=
  ReportedTogether (m.resourceIdentity? scopes) m.program.resources

def ModulesTogether (m : Model) (scopes : Scopes) : ModuleDecl → ModuleDecl → Prop :=
  ReportedTogether (moduleIdentity? scopes) m.program.modules

end Model

/-! ## Pairs in built programs -/

def isPairWith {α : Type} (test : α → α → Bool) : List α → Bool
  | [a, b] => test a b
  | _ => false

theorem isPairWith_iff {α : Type} {test : α → α → Bool} {l : List α} :
    isPairWith test l = true ↔ ∃ a b, l = [a, b] ∧ test a b = true := by
  unfold isPairWith
  split <;> simp_all

/-- Whether two declarations have equal identities. -/
def identified {δ α : Type} [BEq α] (identity? : δ → Option α) (a b : δ) : Bool :=
  (identity? a).any fun i => (identity? b).any (i == ·)

theorem identified_iff {δ α : Type} [BEq α] {identity? : δ → Option α} {a b : δ} :
    identified identity? a b = true ↔
      ∃ i j, identity? a = some i ∧ identity? b = some j ∧ (i == j) = true := by
  simp [identified, Option.any_eq_true]

/-! ## Scopes of modules -/

def Expr.isCall : Expr → Bool
  | call .. => true
  | _ => false

/-- Calls with like arguments, whatever is called, or two things of which none is a call. -/
inductive LikeScopes : Option Expr → Option Expr → Prop
  | calls {m n : Node} {base base' : Option Expr} {name name' : String} {args args' : List Expr}
    (like : List.Forall₂ (fun a b => a.alike b = true) args args') :
    LikeScopes (some (.call m base name args)) (some (.call n base' name' args'))
  | others {a b : Option Expr} (left : a.any Expr.isCall = false)
    (right : b.any Expr.isCall = false) : LikeScopes a b

theorem scopeArgs?_eq_none_iff {body : Body} :
    Model.scopeArgs? body = none ↔ (body.property? "scope").any Expr.isCall = false := by
  unfold Model.scopeArgs?
  rcases body.property? "scope" with _ | ⟨_ | _⟩ <;> simp [Expr.isCall]

theorem scopeArgs?_eq_some_iff {body : Body} {args : List Expr} :
    Model.scopeArgs? body = some args ↔
      ∃ n base name, body.property? "scope" = some (.call n base name args) := by
  unfold Model.scopeArgs?
  rcases body.property? "scope" with _ | ⟨_ | _⟩ <;> simp

theorem alikeScopes_iff_likeScopes {a b : Body} :
    ModuleIdentity.alikeScopes (Model.scopeArgs? a) (Model.scopeArgs? b) = true ↔
      LikeScopes (a.property? "scope") (b.property? "scope") := by
  rw [ModuleIdentity.alikeScopes_iff]
  constructor
  · intro h
    generalize ha : Model.scopeArgs? a = xs, hb : Model.scopeArgs? b = ys at h
    cases h with
    | none => exact .others (scopeArgs?_eq_none_iff.mp ha) (scopeArgs?_eq_none_iff.mp hb)
    | some args =>
      obtain ⟨m, base, name, ha⟩ := scopeArgs?_eq_some_iff.mp ha
      obtain ⟨n, base', name', hb⟩ := scopeArgs?_eq_some_iff.mp hb
      rw [ha, hb]
      exact .calls args
  · intro h
    generalize ha : a.property? "scope" = v, hb : b.property? "scope" = w at h
    cases h with
    | calls args =>
      rw [scopeArgs?_eq_some_iff.mpr ⟨_, _, _, ha⟩, scopeArgs?_eq_some_iff.mpr ⟨_, _, _, hb⟩]
      exact .some args
    | others left right =>
      rw [scopeArgs?_eq_none_iff.mpr (ha ▸ left), scopeArgs?_eq_none_iff.mpr (hb ▸ right)]
      exact .none

theorem Expr.isString_eq_of_alike {v w : Expr} (h : v.alike w = true) :
    w.isString = v.isString := by
  cases Expr.alike_iff_matches.mp h <;> rfl

namespace Model

variable {m : Model} {scopes : Scopes} {d e : ModuleDecl}

/-- Two modules are reported together exactly if their scopes are of one kind, their names are like
strings, and the calls that give their scopes have like arguments; a scope that is not given by a
call counts as none. -/
theorem modulesTogether_iff (h : [d, e].Sublist m.program.modules) :
    m.ModulesTogether scopes d e ↔
      (∃ s t, scopes[d.symbol]? = some s ∧ scopes[e.symbol]? = some t ∧ s.kind = t.kind) ∧
      LikeScopes (d.body.property? "scope") (e.body.property? "scope") ∧
      ∃ v w, d.body.property? "name" = some v ∧ e.body.property? "name" = some w ∧
        v.isString = true ∧ v.alike w = true := by
  rw [ModulesTogether, reportedTogether_iff h, ← alikeScopes_iff_likeScopes]
  constructor
  · rintro ⟨i, j, hi, hj, hij⟩
    obtain ⟨s, v, hs, hv, string, rfl⟩ := moduleIdentity?_eq_some_iff.mp hi
    obtain ⟨t, w, ht, hw, -, rfl⟩ := moduleIdentity?_eq_some_iff.mp hj
    obtain ⟨kinds, scopesAlike, namesAlike⟩ := ModuleIdentity.same_iff.mp hij
    exact ⟨⟨s, t, hs, ht, kinds⟩, scopesAlike, v, w, hv, hw, string, namesAlike⟩
  · rintro ⟨⟨s, t, hs, ht, kinds⟩, scopesAlike, v, w, hv, hw, string, namesAlike⟩
    have string' : w.isString = true := by rw [Expr.isString_eq_of_alike namesAlike, string]
    refine ⟨_, _, moduleIdentity?_eq_some_iff.mpr ⟨s, v, hs, hv, string, rfl⟩,
      moduleIdentity?_eq_some_iff.mpr ⟨t, w, ht, hw, string', rfl⟩, ?_⟩
    exact ModuleIdentity.same_iff.mpr ⟨kinds, scopesAlike, namesAlike⟩

/-- A module with a name and a scope that is given by a call. -/
def calledModule (number : Nat) (name group : String) : ModuleDecl where
  span := {}
  symbol := ⟨number⟩
  name := ⟨{}, name⟩
  path := "./module.bicep"
  type := .module "./module.bicep" .any
  body := .object (.object {} [⟨{}, "name", .string {} ["deploy"] []⟩,
    ⟨{}, "scope", .call {} none "resourceGroup" [.string {} [group] []]⟩])

def oneGroup : Model where
  program := { file := "main.bicep", resources := [], indices := 0,
               modules := [calledModule 0 "first" "logs", calledModule 1 "second" "Logs"] }
  symbols := {}
  moduleScopes := Std.TreeMap.ofList
    [(SymbolId.mk 0, Scope.mk .resourceGroup none), (SymbolId.mk 1, Scope.mk .resourceGroup none)]

theorem modulesTogether_oneGroup :
    [calledModule 0 "first" "logs", calledModule 1 "second" "Logs"].Sublist
      oneGroup.program.modules ∧
    oneGroup.ModulesTogether oneGroup.moduleScopes (calledModule 0 "first" "logs")
      (calledModule 1 "second" "Logs") := by
  have pair : [calledModule 0 "first" "logs", calledModule 1 "second" "Logs"].Sublist
      oneGroup.program.modules := .refl _
  have groupsAlike : (Expr.string {} ["logs"] []).alike (.string {} ["Logs"] []) = true := by
    decide +kernel
  refine ⟨pair, (modulesTogether_iff pair).mpr
    ⟨⟨_, _, rfl, rfl, rfl⟩, ?_, _, _, rfl, rfl, rfl, ?_⟩⟩
  · exact .calls (.cons groupsAlike .nil)
  · exact Expr.alike_refl _

end Model

/-- Two modules of one name, deployed to two different groups. -/
def Blueprint.twoGroups : Blueprint where
  params := ["a", "b"]
  modules := [
    { name := "first", properties := .ofList [("name", "'deploy'"), ("scope", "a")] },
    { name := "second", properties := .ofList [("name", "'deploy'"), ("scope", "b")] }]

/-- The two are reported together, though their scopes are different references. -/
theorem Blueprint.twoGroups_reported : ∃ built, twoGroups.build = .ok built ∧ ∃ d e,
    built.model.ModulesTogether built.model.moduleScopes d e ∧ ∃ v w,
      d.body.property? "scope" = some v ∧ e.body.property? "scope" = some w ∧
      v.isCall = false ∧ w.isCall = false ∧ v.alike w = false := by
  have holds : twoGroups.buildsWith (fun built => isPairWith (fun d e =>
      identified (Model.moduleIdentity? built.model.moduleScopes) d e &&
        (d.body.property? "scope").any fun v => (e.body.property? "scope").any fun w =>
          !v.isCall && !w.isCall && !v.alike w) built.model.program.modules) = true := by
    decide +kernel
  obtain ⟨built, hbuilt, hpair⟩ := buildsWith_iff.mp holds
  obtain ⟨d, e, hmodules, htest⟩ := isPairWith_iff.mp hpair
  simp only [Bool.and_eq_true, Option.any_eq_true, Bool.not_eq_true'] at htest
  obtain ⟨hidentified, v, hv, w, hw, ⟨hcall, hcall'⟩, halike⟩ := htest
  have pair : [d, e].Sublist built.model.program.modules := by rw [hmodules]
  exact ⟨built, hbuilt, d, e, (reportedTogether_iff pair).mpr (identified_iff.mp hidentified),
    v, w, hv, hw, hcall, hcall', halike⟩

end Preflight
