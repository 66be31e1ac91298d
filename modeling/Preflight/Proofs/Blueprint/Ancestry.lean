import Mathlib.Data.List.Nodup
import Mathlib.Data.List.Perm.Subperm
import Mathlib.Logic.Relation
import Preflight.Proofs.Blueprint.Written

/-! # Chains of parents

What a build records as the ancestors of a resource is the chain of its parents, which is empty
just if the resource has none. The chains are found if every parent is a resource of the program
and none is an ancestor of itself: then no chain is as long as the list of resources. -/

namespace Preflight
set_option autoImplicit false

/-- How the resource is a child of its parent. -/
def ResourceSpec.childKind (spec : ResourceSpec) : AncestorKind :=
  if spec.properties.contains "parent" then .parentProperty else .nested

namespace Blueprint

variable {b : Blueprint}

/-- At the top the chain is empty. Below, it starts with the parent and goes on with the parent's
chain, for which there is room for one parent less. -/
theorem parentChain_eq_ok_iff {root : String} {bound : Nat} {spec : ResourceSpec}
    {chain : List Ancestor} : b.parentChain root bound spec = .ok chain ↔
      spec.parent = none ∧ chain = [] ∨
      ∃ parent q symbol bound' rest, spec.parent = some parent ∧
        b.numberedResources.find? (·.1.name == parent) = some (q, symbol) ∧ bound' + 1 = bound ∧
        b.parentChain root bound' q = .ok rest ∧ chain = ⟨symbol, spec.childKind⟩ :: rest := by
  constructor
  · intro h
    unfold parentChain at h
    split at h
    next hparent =>
      cases h
      exact .inl ⟨hparent, rfl⟩
    next parent hparent =>
      split at h
      next => cases h
      next q symbol hfind =>
        cases bound with
        | zero => cases h
        | succ bound =>
          obtain ⟨rest, hrest, h⟩ := bind_eq_ok_iff.mp h
          cases h
          exact .inr ⟨parent, q, symbol, bound, rest, hparent, hfind, rfl, hrest, rfl⟩
  · rintro (⟨hparent, rfl⟩ | ⟨parent, q, symbol, bound', rest, hparent, hfind, rfl, hrest, rfl⟩)
    · unfold parentChain
      rw [hparent]
    · rw [parentChain, hparent]
      dsimp only
      rw [hfind]
      exact bind_eq_ok_iff.mpr ⟨rest, hrest, rfl⟩

theorem parentChain_eq_nil_iff {root : String} {bound : Nat} {spec : ResourceSpec}
    {chain : List Ancestor} (h : b.parentChain root bound spec = .ok chain) :
    chain = [] ↔ spec.parent = none := by
  rcases parentChain_eq_ok_iff.mp h with
    ⟨hparent, rfl⟩ | ⟨parent, _, _, _, _, hparent, -, -, -, rfl⟩
  · exact iff_of_true rfl hparent
  · exact iff_of_false (List.cons_ne_nil _ _) (hparent ▸ Option.some_ne_none parent)

/-- Each resource has a symbol of its own. -/
theorem nodup_symbols (b : Blueprint) : (b.numberedResources.map Prod.snd).Nodup := by
  have hsymbols : b.numberedResources.map Prod.snd =
      ((b.resources.zipIdx (b.params.length + b.vars.length)).map Prod.snd).map SymbolId.mk := by
    rw [numberedResources, List.map_map, List.map_map]
    rfl
  rw [hsymbols, List.zipIdx_map_snd]
  apply List.Nodup.map _ List.nodup_range'
  intro i j hij
  exact congrArg SymbolId.number hij

/-- One resource after the other, each gets its chain under its own symbol: the symbols ahead have
no chain yet, and those behind keep theirs. -/
theorem ancestors_foldlM {pairs : List (ResourceSpec × SymbolId)} {before after : Ancestry}
    (hnodup : (pairs.map Prod.snd).Nodup)
    (hempty : ∀ pair ∈ pairs, before.ancestors pair.2 = [])
    (h : pairs.foldlM (fun ancestry (spec, symbol) => do
      let chain ← b.parentChain spec.name b.resources.length spec
      return if chain.isEmpty then ancestry else ancestry.insert symbol chain) before = .ok after) :
    (∀ pair ∈ pairs, b.parentChain pair.1.name b.resources.length pair.1 =
      .ok (after.ancestors pair.2)) ∧
    ∀ other ∉ pairs.map Prod.snd, after.ancestors other = before.ancestors other := by
  induction pairs generalizing before with
  | nil =>
    cases h
    exact ⟨nofun, fun _ _ => rfl⟩
  | cons pair pairs ih =>
    rw [List.foldlM_cons] at h
    obtain ⟨middle, hstep, h⟩ := bind_eq_ok_iff.mp h
    obtain ⟨chain, hchain, hstep⟩ := bind_eq_ok_iff.mp hstep
    obtain ⟨hnew, hnodup⟩ := List.nodup_cons.mp hnodup
    have hmiddle : ∀ other, middle.ancestors other =
        if pair.2 = other then chain else before.ancestors other := by
      intro other
      cases hstep
      cases chain with
      | nil =>
        rcases eq_or_ne pair.2 other with rfl | hne
        · rw [if_pos rfl]
          exact hempty pair List.mem_cons_self
        · rw [if_neg hne]
          rfl
      | cons ancestor chain => exact Ancestry.ancestors_insert before pair.2 other _
    have hahead : ∀ later ∈ pairs, middle.ancestors later.2 = [] := by
      intro later hlater
      have hne : pair.2 ≠ later.2 := by
        intro heq
        exact hnew (heq ▸ List.mem_map_of_mem hlater)
      rw [hmiddle, if_neg hne]
      exact hempty later (List.mem_cons_of_mem pair hlater)
    obtain ⟨hchains, hkept⟩ := ih hnodup hahead h
    constructor
    · intro later hlater
      rcases List.mem_cons.mp hlater with rfl | hlater
      · rw [hkept _ hnew, hmiddle, if_pos rfl]
        exact hchain
      · exact hchains later hlater
    · intro other hother
      rw [List.map_cons, List.mem_cons, not_or] at hother
      rw [hkept other hother.2, hmiddle, if_neg (Ne.symm hother.1)]

/-- What is recorded of a resource is its chain of parents. -/
theorem parentChain_eq_ancestors {ancestry : Ancestry} (h : b.ancestry = .ok ancestry)
    {spec : ResourceSpec} {symbol : SymbolId} (hmem : (spec, symbol) ∈ b.numberedResources) :
    b.parentChain spec.name b.resources.length spec = .ok (ancestry.ancestors symbol) := by
  have hempty : ∀ pair ∈ b.numberedResources, ({} : Ancestry).ancestors pair.2 = [] := by
    intro pair _
    exact Ancestry.ancestors_empty pair.2
  exact (ancestors_foldlM b.nodup_symbols hempty h).1 _ hmem

theorem ancestors_eq_nil_iff {ancestry : Ancestry} (h : b.ancestry = .ok ancestry)
    {spec : ResourceSpec} {symbol : SymbolId} (hmem : (spec, symbol) ∈ b.numberedResources) :
    ancestry.ancestors symbol = [] ↔ spec.parent = none :=
  parentChain_eq_nil_iff (parentChain_eq_ancestors h hmem)

/-! ## Chains that end -/

/-- A resource of the first name has a parent of the second. -/
def HasParent (b : Blueprint) (child parent : String) : Prop :=
  ∃ r ∈ b.resources, r.name = child ∧ r.parent = some parent

theorem exists_find?_iff {parent : String} :
    (∃ pair, b.numberedResources.find? (·.1.name == parent) = some pair) ↔
      ∃ q ∈ b.resources, q.name = parent := by
  rw [← Option.isSome_iff_exists, List.find?_isSome, ← b.map_fst_numberedResources]
  simp

theorem mem_of_find? {parent : String} {q : ResourceSpec} {symbol : SymbolId}
    (h : b.numberedResources.find? (·.1.name == parent) = some (q, symbol)) :
    q ∈ b.resources ∧ q.name = parent := by
  constructor
  · exact fst_mem_resources (List.mem_of_find?_eq_some h)
  · have hfound := List.find?_some h
    exact beq_iff_eq.mp hfound

theorem not_rel_of_acc {α : Type} {rel : α → α → Prop} {a : α} (h : Acc rel a) : ¬rel a a := by
  induction h with
  | intro a _ ih => exact fun hself => ih a hself hself

/-- A resource whose chain ends reaches only such resources. -/
theorem acc_of_parentChain (hnodup : (b.resources.map (·.name)).Nodup) {root : String} {bound : Nat}
    {spec : ResourceSpec} {chain : List Ancestor} (hspec : spec ∈ b.resources)
    (h : b.parentChain root bound spec = .ok chain) :
    Acc (fun parent child => b.HasParent child parent) spec.name := by
  induction chain generalizing bound spec with
  | nil =>
    constructor
    rintro parent ⟨r, hr, hname, hparent⟩
    obtain rfl : r = spec := List.inj_on_of_nodup_map hnodup hr hspec hname
    cases hparent.symm.trans ((parentChain_eq_nil_iff h).mp rfl)
  | cons ancestor rest ih =>
    constructor
    rintro parent ⟨r, hr, hname, hparent⟩
    obtain rfl : r = spec := List.inj_on_of_nodup_map hnodup hr hspec hname
    rcases parentChain_eq_ok_iff.mp h with
      ⟨-, hno⟩ | ⟨parent', q, symbol, bound', rest', hparent', hfind, -, hrest, heq⟩
    · cases hno
    · cases heq
      obtain rfl : parent' = parent := Option.some.inj (hparent'.symm.trans hparent)
      obtain ⟨hq, rfl⟩ := mem_of_find? hfind
      exact ih hq hrest

theorem parent_of_parentChain {root : String} {bound : Nat} {spec : ResourceSpec}
    {chain : List Ancestor} (h : b.parentChain root bound spec = .ok chain) {parent : String}
    (hparent : spec.parent = some parent) : ∃ q ∈ b.resources, q.name = parent := by
  rcases parentChain_eq_ok_iff.mp h with
    ⟨hnone, -⟩ | ⟨parent', q, symbol, -, -, hparent', hfind, -⟩
  · cases hnone.symm.trans hparent
  · obtain rfl : parent' = parent := Option.some.inj (hparent'.symm.trans hparent)
    exact exists_find?_iff.mp ⟨_, hfind⟩

/-- The resources that were passed on the way are distinct, so fewer turns are left than there are
others. -/
theorem exists_parentChain {root : String}
    (known : ∀ r ∈ b.resources, ∀ parent ∈ r.parent, ∃ q ∈ b.resources, q.name = parent)
    (acyclic : ∀ r ∈ b.resources, ¬Relation.TransGen b.HasParent r.name r.name) {bound : Nat}
    {spec : ResourceSpec} (hspec : spec ∈ b.resources) {passed : List String}
    (hnodup : passed.Nodup) (hpassed : ∀ name ∈ passed, name ∈ b.resources.map (·.name) ∧
      Relation.TransGen b.HasParent name spec.name)
    (hbound : passed.length + bound = b.resources.length) :
    ∃ chain, b.parentChain root bound spec = .ok chain := by
  induction bound generalizing spec passed with
  | zero =>
    have hfresh : spec.name ∉ passed := fun hmem => acyclic spec hspec (hpassed _ hmem).2
    have hsubset : spec.name :: passed ⊆ b.resources.map (·.name) :=
      List.cons_subset.mpr ⟨List.mem_map_of_mem hspec, fun name hname => (hpassed name hname).1⟩
    have hlength := (List.subperm_of_subset (hnodup.cons hfresh) hsubset).length_le
    rw [List.length_cons, List.length_map] at hlength
    omega
  | succ bound ih =>
    cases hparent : spec.parent with
    | none => exact ⟨[], parentChain_eq_ok_iff.mpr (.inl ⟨hparent, rfl⟩)⟩
    | some parent =>
      obtain ⟨⟨next, symbol⟩, hfind⟩ := exists_find?_iff.mpr (known spec hspec parent hparent)
      obtain ⟨hnext, rfl⟩ := mem_of_find? hfind
      have hstep : b.HasParent spec.name next.name := ⟨spec, hspec, rfl, hparent⟩
      have hfresh : spec.name ∉ passed := fun hmem => acyclic spec hspec (hpassed _ hmem).2
      have hpassed' : ∀ name ∈ spec.name :: passed, name ∈ b.resources.map (·.name) ∧
          Relation.TransGen b.HasParent name next.name := by
        intro name hname
        rcases List.mem_cons.mp hname with rfl | hname
        · exact ⟨List.mem_map_of_mem hspec, .single hstep⟩
        · exact ⟨(hpassed name hname).1, (hpassed name hname).2.tail hstep⟩
      have hlength : (spec.name :: passed).length + bound = b.resources.length := by
        rw [List.length_cons]
        omega
      obtain ⟨rest, hrest⟩ := ih hnext (hnodup.cons hfresh) hpassed' hlength
      refine ⟨⟨symbol, spec.childKind⟩ :: rest, parentChain_eq_ok_iff.mpr (.inr ?_)⟩
      exact ⟨next.name, next, symbol, bound, rest, hparent, hfind, rfl, hrest, rfl⟩

theorem exists_foldlM_iff {α β ε : Type} {f : β → α → Except ε β} {P : α → Prop} {xs : List α}
    (step : ∀ x ∈ xs, ∀ acc, (∃ r, f acc x = .ok r) ↔ P x) {acc : β} :
    (∃ r, xs.foldlM f acc = .ok r) ↔ ∀ x ∈ xs, P x := by
  induction xs generalizing acc with
  | nil => simp [pure, Except.pure]
  | cons x xs ih =>
    rw [List.forall_mem_cons] at step
    simp only [List.foldlM_cons, bind_eq_ok_iff, List.forall_mem_cons, ← step.1 acc]
    constructor
    · rintro ⟨r, acc', hx, hxs⟩
      exact ⟨⟨acc', hx⟩, (ih step.2).mp ⟨r, hxs⟩⟩
    · rintro ⟨⟨acc', hx⟩, hxs⟩
      have hrest : ∃ r, xs.foldlM f acc' = .ok r := (ih step.2).mpr hxs
      obtain ⟨r, hr⟩ := hrest
      exact ⟨r, acc', hx, hr⟩

/-- All chains end if every parent is a resource and no resource is its own ancestor. -/
theorem exists_ancestry_iff (hnodup : (b.resources.map (·.name)).Nodup) :
    (∃ ancestry, b.ancestry = .ok ancestry) ↔
      (∀ r ∈ b.resources, ∀ parent ∈ r.parent, ∃ q ∈ b.resources, q.name = parent) ∧
        ∀ r ∈ b.resources, ¬Relation.TransGen b.HasParent r.name r.name := by
  have chains : (∃ ancestry, b.ancestry = .ok ancestry) ↔ ∀ pair ∈ b.numberedResources,
      ∃ chain, b.parentChain pair.1.name b.resources.length pair.1 = .ok chain := by
    refine exists_foldlM_iff fun pair _ ancestry => ?_
    simp only [bind_eq_ok_iff]
    constructor
    · rintro ⟨_, chain, hchain, -⟩
      exact ⟨chain, hchain⟩
    · rintro ⟨chain, hchain⟩
      exact ⟨_, chain, hchain, rfl⟩
  have numbered : (∀ pair ∈ b.numberedResources,
      ∃ chain, b.parentChain pair.1.name b.resources.length pair.1 = .ok chain) ↔
      ∀ r ∈ b.resources, ∃ chain, b.parentChain r.name b.resources.length r = .ok chain := by
    rw [← b.map_fst_numberedResources, List.forall_mem_map]
  rw [chains, numbered]
  constructor
  · intro h
    refine ⟨fun r hr parent hparent => ?_, fun r hr hcycle => ?_⟩
    · obtain ⟨chain, hchain⟩ := h r hr
      exact parent_of_parentChain hchain hparent
    · obtain ⟨chain, hchain⟩ := h r hr
      have hacc := acc_of_parentChain hnodup hr hchain
      exact not_rel_of_acc hacc.transGen (Relation.transGen_swap.mpr hcycle)
  · rintro ⟨known, acyclic⟩ r hr
    exact exists_parentChain known acyclic hr .nil nofun (Nat.zero_add _)

end Blueprint

end Preflight
