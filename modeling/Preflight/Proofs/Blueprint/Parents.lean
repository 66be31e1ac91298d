import Preflight.Proofs.Blueprint.Acceptance

/-! # Ancestors follow the parents

A resource's ancestors are its parent and then the ancestors of its parent. They are found in a
climb from parent to parent that remembers how far it has come but not where it has been. A chain
that ends is shorter than the list of resources, so the bound stops none but those that go round. -/

namespace Preflight
set_option autoImplicit false

namespace Blueprint

variable {b : Blueprint}

/-! ## The climb -/

/-- Where the climb stands, and the parents it has come by, nearest first. -/
structure Climb where
  current : ResourceSpec
  passed : List Ancestor := []

/-- One turn of the climb from `root`: it goes on from the parent, or is over. -/
def Climb.turn (b : Blueprint) (root : String) (climb : Climb) :
    Climb ⊕ Except BuildError (List Ancestor) :=
  match climb.current.parent with
  | none => .inr (.ok climb.passed)
  | some parent =>
    match b.numberedResources.find? (·.1.name == parent) with
    | none => .inr (.error (.unknownParent climb.current.name parent))
    | some (next, symbol) =>
      if b.resources.length ≤ climb.passed.length then .inr (.error (.cyclicParents root))
      else .inl ⟨next, climb.passed ++ [⟨symbol, climb.current.childKind⟩]⟩

/-- So many turns end the climb, with this result. -/
inductive Climb.Ends (b : Blueprint) (root : String) :
    Nat → Climb → Except BuildError (List Ancestor) → Prop where
  | over {climb : Climb} {result : Except BuildError (List Ancestor)}
    (h : climb.turn b root = .inr result) : Ends b root 1 climb result
  | on {turns : Nat} {climb next : Climb} {result : Except BuildError (List Ancestor)}
    (h : climb.turn b root = .inl next) (rest : Ends b root turns next result) :
    Ends b root (turns + 1) climb result

/-- With room for so many parents more, a turn ends the climb with the chain that is left, or passes
one parent and leaves the rest of the chain to the next turn. -/
theorem Climb.turn_cases {root : String} {bound : Nat} {climb : Climb}
    (hbound : climb.passed.length + bound = b.resources.length) :
    climb.turn b root =
        .inr ((b.parentChain root bound climb.current).map (climb.passed ++ ·)) ∨
      ∃ bound' next, bound' + 1 = bound ∧ climb.turn b root = .inl next ∧
        next.passed.length = climb.passed.length + 1 ∧
        (b.parentChain root bound climb.current).map (climb.passed ++ ·) =
          (b.parentChain root bound' next.current).map (next.passed ++ ·) := by
  cases hparent : climb.current.parent with
  | none =>
    left
    unfold turn parentChain
    simp [hparent, Except.map]
  | some parent =>
    cases hfind : b.numberedResources.find? (·.1.name == parent) with
    | none =>
      left
      unfold turn parentChain
      simp [hparent, hfind, Except.map]
    | some found =>
      obtain ⟨parentSpec, symbol⟩ := found
      cases bound with
      | zero =>
        left
        unfold turn parentChain
        simp [hparent, hfind, ← hbound, Except.map]
      | succ bound =>
        let ancestor : Ancestor := ⟨symbol, climb.current.childKind⟩
        refine .inr ⟨bound, ⟨parentSpec, climb.passed ++ [ancestor]⟩, rfl, ?_,
          List.length_append, ?_⟩
        · unfold turn
          rw [hparent]
          dsimp only
          rw [hfind]
          exact if_neg (by omega)
        · rw [parentChain, hparent]
          dsimp only
          rw [hfind]
          cases hchain : b.parentChain root bound parentSpec with
          | error e => simp [hchain, Except.map, Bind.bind, Except.bind]
          | ok chain =>
            simp [hchain, ancestor, ResourceSpec.childKind, Except.map, Bind.bind, Except.bind,
              pure, Except.pure]

/-- The climb ends with the chain of parents behind those it had passed. -/
theorem Climb.exists_ends {root : String} {bound : Nat} {climb : Climb}
    (hbound : climb.passed.length + bound = b.resources.length) :
    ∃ turns ≤ bound + 1, Climb.Ends b root turns climb
      ((b.parentChain root bound climb.current).map (climb.passed ++ ·)) := by
  induction bound generalizing climb with
  | zero =>
    rcases Climb.turn_cases hbound with hover | ⟨_, _, hno, -⟩
    · exact ⟨1, le_rfl, .over hover⟩
    · cases hno
  | succ bound ih =>
    rcases Climb.turn_cases hbound with hover | ⟨bound, next, heq, hon, hlength, hsame⟩
    · exact ⟨1, Nat.le_add_left 1 _, .over hover⟩
    · cases heq
      have hnext : next.passed.length + bound = b.resources.length := by omega
      obtain ⟨turns, hturns, ends⟩ := ih hnext
      rw [← hsame] at ends
      exact ⟨turns + 1, Nat.succ_le_succ hturns, .on hon ends⟩

/-! ## Chains -/

/-- More room changes no chain that was found, and the root is only named in errors. -/
theorem parentChain_mono {root root' : String} {bound bound' : Nat} (hle : bound ≤ bound')
    {spec : ResourceSpec} {chain : List Ancestor}
    (h : b.parentChain root bound spec = .ok chain) :
    b.parentChain root' bound' spec = .ok chain := by
  induction chain generalizing bound bound' spec with
  | nil => exact parentChain_eq_ok_iff.mpr (.inl ⟨(parentChain_eq_nil_iff h).mp rfl, rfl⟩)
  | cons ancestor chain ih =>
    rcases parentChain_eq_ok_iff.mp h with
      ⟨-, hno⟩ | ⟨parent, q, symbol, bound, rest, hparent, hfind, rfl, hrest, heq⟩
    · cases hno
    · cases heq
      obtain ⟨bound', rfl⟩ := Nat.exists_eq_add_of_le' (Nat.one_le_of_lt hle)
      refine parentChain_eq_ok_iff.mpr (.inr ⟨parent, q, symbol, bound', chain, hparent, hfind, rfl,
        ?_, rfl⟩)
      exact ih (Nat.le_of_succ_le_succ hle) hrest

/-- The parents lead to a name that no resource has, or into a cycle. -/
def Astray (b : Blueprint) (name : String) : Prop :=
  ∃ reached, Relation.ReflTransGen b.HasParent name reached ∧
    ((∀ q ∈ b.resources, q.name ≠ reached) ∨ Relation.TransGen b.HasParent reached reached)

theorem HasParent.mem {child parent : String} (h : b.HasParent child parent) :
    ∃ r ∈ b.resources, r.name = child := by
  obtain ⟨r, hr, hname, -⟩ := h
  exact ⟨r, hr, hname⟩

/-- What goes wrong anywhere goes wrong on the way of some resource. -/
theorem exists_astray_iff : (∃ r ∈ b.resources, b.Astray r.name) ↔
    ¬((∀ r ∈ b.resources, ∀ parent ∈ r.parent, ∃ q ∈ b.resources, q.name = parent) ∧
      ∀ r ∈ b.resources, ¬Relation.TransGen b.HasParent r.name r.name) := by
  constructor
  · rintro ⟨r, hr, reached, hreaches, hastray⟩ ⟨known, acyclic⟩
    rcases hastray with hunknown | hcycle
    · rcases hreaches.cases_tail with rfl | ⟨last, -, s, hs, -, hparent⟩
      · exact hunknown r hr rfl
      · obtain ⟨q, hq, hname⟩ := known s hs reached hparent
        exact hunknown q hq hname
    · obtain ⟨next, hnext, -⟩ := Relation.TransGen.head'_iff.mp hcycle
      obtain ⟨q, hq, rfl⟩ := hnext.mem
      exact acyclic q hq hcycle
  · intro h
    by_contra hnone
    refine h ⟨fun r hr parent hparent => ?_, fun r hr hcycle => ?_⟩
    · by_contra hunknown
      have step : b.HasParent r.name parent := ⟨r, hr, rfl, hparent⟩
      exact hnone ⟨r, hr, parent, .single step,
        .inl fun q hq hname => hunknown ⟨q, hq, hname⟩⟩
    · exact hnone ⟨r, hr, r.name, .refl, .inr hcycle⟩

theorem ancestry_fails_iff (hnodup : (b.resources.map (·.name)).Nodup) :
    (∃ e, b.ancestry = .error e) ↔ ∃ r ∈ b.resources, b.Astray r.name := by
  rw [exists_astray_iff, ← exists_ancestry_iff hnodup]
  cases b.ancestry <;> simp

/-! ## What is recorded -/

section

variable {ancestry : Ancestry} (hancestry : b.ancestry = .ok ancestry) {r : ResourceSpec}
  {s : SymbolId} (hr : (r, s) ∈ b.numberedResources)
include hancestry hr

theorem ancestors_eq_cons {parent : String} (hparent : r.parent = some parent) :
    ∃ q symbol, (q, symbol) ∈ b.numberedResources ∧ q.name = parent ∧
      ancestry.ancestors s = ⟨symbol, r.childKind⟩ :: ancestry.ancestors symbol := by
  rcases parentChain_eq_ok_iff.mp (parentChain_eq_ancestors hancestry hr) with
    ⟨hnone, -⟩ | ⟨parent', q, symbol, bound, rest, hparent', hfind, hbound, hrest, hchain⟩
  · cases hnone.symm.trans hparent
  · obtain rfl : parent' = parent := Option.some.inj (hparent'.symm.trans hparent)
    have hq := List.mem_of_find?_eq_some hfind
    have hown := parentChain_eq_ancestors hancestry hq
    have hsame : b.parentChain q.name b.resources.length q = .ok rest :=
      parentChain_mono (Nat.le_of_succ_le hbound.le) hrest
    refine ⟨q, symbol, hq, (mem_of_find? hfind).2, ?_⟩
    rw [hchain, Except.ok.inj (hown.symm.trans hsame)]

end

/-- What holds of every chain whose tail has it, where each chain is its parent's with one more. -/
theorem ancestors_induction {ancestry : Ancestry} (hancestry : b.ancestry = .ok ancestry)
    {P : ResourceSpec → SymbolId → List Ancestor → Prop}
    (top : ∀ r s, (r, s) ∈ b.numberedResources → P r s [])
    (child : ∀ r s q symbol, (r, s) ∈ b.numberedResources → (q, symbol) ∈ b.numberedResources →
      r.parent = some q.name → P q symbol (ancestry.ancestors symbol) →
      P r s (⟨symbol, r.childKind⟩ :: ancestry.ancestors symbol))
    {r : ResourceSpec} {s : SymbolId} (hr : (r, s) ∈ b.numberedResources) :
    P r s (ancestry.ancestors s) := by
  generalize hchain : ancestry.ancestors s = chain
  induction chain generalizing r s with
  | nil => exact top r s hr
  | cons ancestor chain ih =>
    cases hparent : r.parent with
    | none =>
      have hnil := (ancestors_eq_nil_iff hancestry hr).mpr hparent
      cases hnil.symm.trans hchain
    | some parent =>
      obtain ⟨q, symbol, hq, rfl, hcons⟩ := ancestors_eq_cons hancestry hr hparent
      rw [hcons] at hchain
      cases hchain
      exact child r s q symbol hr hq hparent (ih hq rfl)

/-- Every ancestor is a resource that the parents lead to. -/
theorem reached_of_mem_ancestors {ancestry : Ancestry} (hancestry : b.ancestry = .ok ancestry)
    {r : ResourceSpec} {s : SymbolId} (hr : (r, s) ∈ b.numberedResources) :
    ∀ ancestor ∈ ancestry.ancestors s, ∃ q, (q, ancestor.resource) ∈ b.numberedResources ∧
      Relation.TransGen b.HasParent r.name q.name := by
  refine ancestors_induction hancestry (P := fun r _ chain => ∀ ancestor ∈ chain,
    ∃ q, (q, ancestor.resource) ∈ b.numberedResources ∧
      Relation.TransGen b.HasParent r.name q.name) (fun _ _ _ => nofun) ?_ hr
  intro r s q symbol hr hq hparent ih
  have step : b.HasParent r.name q.name := ⟨r, fst_mem_resources hr, rfl, hparent⟩
  rw [List.forall_mem_cons]
  constructor
  · exact ⟨q, hq, .single step⟩
  · intro ancestor hmem
    obtain ⟨q', hq', hreaches⟩ := ih ancestor hmem
    exact ⟨q', hq', .head step hreaches⟩

/-- The symbols of a chain are distinct, and the resource's own is none of them. -/
theorem nodup_cons_ancestors (hnodup : (b.resources.map (·.name)).Nodup) {ancestry : Ancestry}
    (hancestry : b.ancestry = .ok ancestry) {r : ResourceSpec} {s : SymbolId}
    (hr : (r, s) ∈ b.numberedResources) :
    (s :: (ancestry.ancestors s).map (·.resource)).Nodup := by
  have acyclic := ((exists_ancestry_iff hnodup).mp ⟨_, hancestry⟩).2
  have fresh : ∀ r s, (r, s) ∈ b.numberedResources →
      s ∉ (ancestry.ancestors s).map (·.resource) := by
    intro r s hr hmem
    obtain ⟨ancestor, hancestor, hsame⟩ := List.mem_map.mp hmem
    obtain ⟨q, hq, hreaches⟩ := reached_of_mem_ancestors hancestry hr ancestor hancestor
    rw [hsame] at hq
    have heq := List.inj_on_of_nodup_map b.nodup_symbols hr hq rfl
    cases heq
    exact acyclic r (fst_mem_resources hr) hreaches
  have distinct : ((ancestry.ancestors s).map (·.resource)).Nodup := by
    refine ancestors_induction hancestry (P := fun _ _ chain => (chain.map (·.resource)).Nodup)
      (fun _ _ _ => .nil) ?_ hr
    intro _ _ q symbol _ hq _ ih
    exact ih.cons (fresh q symbol hq)
  exact distinct.cons (fresh r s hr)

theorem length_ancestors_lt (hnodup : (b.resources.map (·.name)).Nodup) {ancestry : Ancestry}
    (hancestry : b.ancestry = .ok ancestry) {r : ResourceSpec} {s : SymbolId}
    (hr : (r, s) ∈ b.numberedResources) :
    (ancestry.ancestors s).length < b.resources.length := by
  have hsubset : s :: (ancestry.ancestors s).map (·.resource) ⊆
      b.numberedResources.map Prod.snd := by
    refine List.cons_subset.mpr ⟨List.mem_map_of_mem hr, ?_⟩
    intro symbol hsymbol
    obtain ⟨ancestor, hancestor, rfl⟩ := List.mem_map.mp hsymbol
    obtain ⟨q, hq, -⟩ := reached_of_mem_ancestors hancestry hr ancestor hancestor
    exact List.mem_map_of_mem hq
  have hdistinct := nodup_cons_ancestors hnodup hancestry hr
  have hlength := (List.subperm_of_subset hdistinct hsubset).length_le
  rw [List.length_cons, List.length_map, List.length_map] at hlength
  rwa [← b.map_fst_numberedResources, List.length_map]

/-- The recorded ancestors are the parents followed to their end. -/
structure Followed (b : Blueprint) (ancestry : Ancestry) : Prop where
  top : ∀ r s, (r, s) ∈ b.numberedResources → r.parent = none →
    ancestry.ancestors s = [] ∧ ancestry.nearest? s = none
  child : ∀ r s parent, (r, s) ∈ b.numberedResources → r.parent = some parent →
    ∃ q symbol, (q, symbol) ∈ b.numberedResources ∧ q.name = parent ∧
      ancestry.ancestors s = ⟨symbol, r.childKind⟩ :: ancestry.ancestors symbol ∧
      ancestry.nearest? s = some ⟨symbol, r.childKind⟩
  distinct : ∀ r s, (r, s) ∈ b.numberedResources →
    ((ancestry.ancestors s).map (·.resource)).Nodup ∧
    s ∉ (ancestry.ancestors s).map (·.resource)
  short : ∀ r s, (r, s) ∈ b.numberedResources →
    (ancestry.ancestors s).length < b.resources.length

theorem followed (hnodup : (b.resources.map (·.name)).Nodup) {ancestry : Ancestry}
    (hancestry : b.ancestry = .ok ancestry) : b.Followed ancestry where
  top r s hr hparent := by
    have hnil := (ancestors_eq_nil_iff hancestry hr).mpr hparent
    exact ⟨hnil, congrArg List.head? hnil⟩
  child r s parent hr hparent := by
    obtain ⟨q, symbol, hq, hname, hchain⟩ := ancestors_eq_cons hancestry hr hparent
    exact ⟨q, symbol, hq, hname, hchain, congrArg List.head? hchain⟩
  distinct r s hr := by
    obtain ⟨hfresh, hdistinct⟩ := List.nodup_cons.mp (nodup_cons_ancestors hnodup hancestry hr)
    exact ⟨hdistinct, hfresh⟩
  short r s hr := length_ancestors_lt hnodup hancestry hr

/-- Every climb ends, and finds an error just where the parents lead astray. What is recorded
otherwise, also in a program that is built, are the parents followed to their end. -/
theorem ancestry_follows_parents (hnames : b.declaredNames.Nodup) :
    (∀ r ∈ b.resources, ∃ turns ≤ b.resources.length + 1,
      Climb.Ends b r.name turns ⟨r, []⟩ (b.parentChain r.name b.resources.length r)) ∧
    ((∃ e, b.ancestry = .error e) ↔ ∃ r ∈ b.resources, b.Astray r.name) ∧
    (∀ ancestry, b.ancestry = .ok ancestry → b.Followed ancestry) ∧
    ∀ built, b.build = .ok built → b.Followed built.model.ancestors := by
  have hnodup := nodup_resources hnames
  refine ⟨fun r _ => ?_, ancestry_fails_iff hnodup, fun _ => followed hnodup,
    fun _ hbuilt => followed hnodup (of_build hbuilt).ancestors⟩
  have climb : ∃ turns ≤ b.resources.length + 1, Climb.Ends b r.name turns ⟨r, []⟩
      ((b.parentChain r.name b.resources.length r).map ([] ++ ·)) :=
    Climb.exists_ends (Nat.zero_add b.resources.length)
  have hmap : (b.parentChain r.name b.resources.length r).map ([] ++ ·) =
      b.parentChain r.name b.resources.length r :=
    congrFun Except.map_id _
  rwa [hmap] at climb

/-- A grandchild by nesting, declared before its parent, which names its own. -/
def grandchild : Blueprint where
  params := ["location"]
  resources := [
    { name := "blob", typeText := "Ns/a/b/c@1", parent := some "service" },
    { name := "account", typeText := "Ns/a@1" },
    { name := "service", typeText := "Ns/a/b@1", parent := some "account"
      properties := .ofList [("parent", "account")] }]

/-- A resource below two that are each other's parent. -/
def belowCycle : Blueprint where
  resources := [
    { name := "leaf", typeText := "Ns/a@1", parent := some "left" },
    { name := "left", typeText := "Ns/a@1", parent := some "right" },
    { name := "right", typeText := "Ns/a@1", parent := some "left" }]

theorem ancestry_follows_parents_grandchild :
    grandchild.declaredNames.Nodup ∧ belowCycle.declaredNames.Nodup ∧
    (∃ built, grandchild.build = .ok built ∧
      built.model.ancestors.ancestors ⟨1⟩ = [⟨⟨3⟩, .nested⟩, ⟨⟨2⟩, .parentProperty⟩] ∧
      ((built.model.ancestors.ancestors ⟨1⟩).map (·.resource)).Nodup) ∧
    (∃ e, belowCycle.ancestry = .error e) ∧
    belowCycle.Astray "leaf" := by
  have hgrandchild : grandchild.declaredNames.Nodup := by decide
  have hcycle : belowCycle.declaredNames.Nodup := by decide
  have builds : grandchild.buildsWith (fun built => built.model.ancestors.ancestors ⟨1⟩ ==
      [⟨⟨3⟩, .nested⟩, ⟨⟨2⟩, .parentProperty⟩]) = true := by
    decide +kernel
  obtain ⟨built, hbuilt, hchain⟩ := buildsWith_iff.mp builds
  have followed := (ancestry_follows_parents hgrandchild).2.2.2 built hbuilt
  have hmem : (grandchild.resources[0], ⟨1⟩) ∈ grandchild.numberedResources := List.mem_cons_self
  have hleft : belowCycle.HasParent "left" "right" :=
    ⟨belowCycle.resources[1], by simp [belowCycle]⟩
  have hright : belowCycle.HasParent "right" "left" :=
    ⟨belowCycle.resources[2], by simp [belowCycle]⟩
  have hleaf : belowCycle.HasParent "leaf" "left" :=
    ⟨belowCycle.resources[0], by simp [belowCycle]⟩
  have astray : belowCycle.Astray "leaf" :=
    ⟨"left", .single hleaf, .inr (.head hleft (.single hright))⟩
  have fails := (ancestry_follows_parents hcycle).2.1.mpr
    ⟨belowCycle.resources[0], List.mem_cons_self, astray⟩
  exact ⟨hgrandchild, hcycle, ⟨built, hbuilt, beq_iff_eq.mp hchain,
    (followed.distinct _ _ hmem).1⟩, fails, astray⟩

end Blueprint

end Preflight
