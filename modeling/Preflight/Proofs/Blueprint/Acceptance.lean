import Mathlib.Data.List.Perm.Basic
import Preflight.Proofs.Blueprint.Ancestry
import Preflight.Proofs.Blueprint.Bound
import Preflight.Proofs.Blueprint.Lexical
import Preflight.Proofs.OnePass.Safety

/-! # What a blueprint must fulfil

A blueprint describes a program just if it fulfils seven requirements. They are about the
blueprint alone: what was written or bound so far decides about no text, and the last step, which
binds the names, never fails. -/

namespace Preflight
set_option autoImplicit false

variable {σ ε α β : Type} {cond cond' : Prop}

theorem bind_ne_error {x : Except ε α} {f : α → Except ε β} {e : ε} (hx : x ≠ .error e)
    (hf : ∀ a, x = .ok a → f a ≠ .error e) : x >>= f ≠ .error e := by
  cases x with
  | error e' => exact fun h => hx (congrArg Except.error (Except.error.inj h))
  | ok a => exact hf a rfl

theorem foldlM_ne_error {f : β → α → Except ε β} {e : ε} (step : ∀ acc x, f acc x ≠ .error e)
    (xs : List α) (acc : β) : xs.foldlM f acc ≠ .error e := by
  induction xs generalizing acc with
  | nil => nofun
  | cons x xs ih =>
    rw [List.foldlM_cons]
    exact bind_ne_error (step acc x) fun acc' _ => ih acc'

/-! ## Success -/

/-- Every run of `p` succeeds if the condition holds, and none does if it fails. -/
def SucceedsIff (p : StateT σ (Except ε) α) (cond : Prop) : Prop :=
  ∀ s, (∃ r, p.run s = .ok r) ↔ cond

namespace SucceedsIff

theorem of_iff {p : StateT σ (Except ε) α} (h : SucceedsIff p cond) (hiff : cond ↔ cond') :
    SucceedsIff p cond' :=
  fun s => (h s).trans hiff

theorem modifyGet (f : σ → α × σ) :
    SucceedsIff (modifyGet f : StateT σ (Except ε) α) True := by
  intro s
  exact ⟨fun _ => trivial, fun _ => ⟨f s, rfl⟩⟩

theorem pure (a : α) : SucceedsIff (pure a : StateT σ (Except ε) α) True :=
  modifyGet fun s => (a, s)

theorem get : SucceedsIff (get : StateT σ (Except ε) σ) True := modifyGet fun s => (s, s)

theorem throw (e : ε) : SucceedsIff (throw e : StateT σ (Except ε) α) False := by
  intro s
  constructor
  · rintro ⟨r, hr⟩
    cases hr
  · exact False.elim

theorem bind {p : StateT σ (Except ε) α} {q : α → StateT σ (Except ε) β} (hp : SucceedsIff p cond)
    (hq : ∀ a, SucceedsIff (q a) cond') : SucceedsIff (p >>= q) (cond ∧ cond') := by
  intro s
  simp only [StateT.run_bind, bind_eq_ok_iff]
  constructor
  · rintro ⟨r, ⟨a, s'⟩, hfirst, hrest⟩
    exact ⟨(hp s).mp ⟨_, hfirst⟩, (hq a s').mp ⟨r, hrest⟩⟩
  · rintro ⟨hcond, hcond'⟩
    obtain ⟨⟨a, s'⟩, hfirst⟩ := (hp s).mpr hcond
    obtain ⟨r, hrest⟩ := (hq a s').mpr hcond'
    exact ⟨r, _, hfirst, hrest⟩

/-- What always succeeds adds no condition. -/
theorem after {p : StateT σ (Except ε) α} {q : α → StateT σ (Except ε) β}
    (hp : SucceedsIff p True) (hq : ∀ a, SucceedsIff (q a) cond) : SucceedsIff (p >>= q) cond :=
  (hp.bind hq).of_iff (Iff.of_eq (true_and cond))

theorem before {p : StateT σ (Except ε) α} {q : α → StateT σ (Except ε) β}
    (hp : SucceedsIff p cond) (hq : ∀ a, SucceedsIff (q a) True) : SucceedsIff (p >>= q) cond :=
  (hp.bind hq).of_iff (Iff.of_eq (and_true cond))

theorem mapM {f : α → StateT σ (Except ε) β} {P : α → Prop} (h : ∀ x, SucceedsIff (f x) (P x))
    (xs : List α) : SucceedsIff (xs.mapM f) (∀ x ∈ xs, P x) := by
  induction xs with
  | nil =>
    rw [List.mapM_nil]
    exact (pure []).of_iff (by simp)
  | cons x xs ih =>
    rw [List.mapM_cons]
    have rest : ∀ y, SucceedsIff (do return y :: (← xs.mapM f)) (∀ x ∈ xs, P x) :=
      fun y => ih.before fun ys => pure (y :: ys)
    exact ((h x).bind rest).of_iff List.forall_mem_cons.symm

theorem mapM_option {f : α → StateT σ (Except ε) β} (h : ∀ x, SucceedsIff (f x) True)
    (x : Option α) : SucceedsIff (x.mapM f) True := by
  cases x with
  | none => exact pure none
  | some x =>
    rw [Option.mapM_some, map_eq_pure_bind]
    exact (h x).before fun y => pure (some y)

end SucceedsIff

/-! ## Texts -/

/-- The text is an expression. -/
def Reading.Accepts (text : String) : Prop := ∃ reading, Reading.parse text = .ok reading

/-- The texts of the expressions of a declaration. -/
def expressionTexts (loop : Option LoopSpec) (condition : Option String)
    (properties : Std.TreeMap String String) : List String :=
  (loop.map LoopSpec.collection).toList ++ condition.toList ++ properties.toList.map (·.2)

def ResourceSpec.texts (spec : ResourceSpec) : List String :=
  expressionTexts spec.loop spec.condition spec.properties

def ModuleSpec.texts (spec : ModuleSpec) : List String :=
  expressionTexts spec.loop spec.condition spec.properties

def Blueprint.texts (b : Blueprint) : List String :=
  b.resources.flatMap ResourceSpec.texts ++ b.modules.flatMap ModuleSpec.texts

namespace Writer

theorem succeeds_write (text : String) : SucceedsIff (write text) True := .modifyGet _

theorem succeeds_newline : SucceedsIff newline True := .modifyGet _

theorem succeeds_position : SucceedsIff position True := .after .get fun _ => .pure _

theorem succeeds_spanFrom (start : Position) : SucceedsIff (spanFrom start) True :=
  .after succeeds_position fun _ => .pure _

theorem succeeds_freshIndex : SucceedsIff freshIndex True := .modifyGet _

theorem succeeds_node (start : Position) : SucceedsIff (node start) True :=
  .after (succeeds_spanFrom start) fun _ => .after succeeds_freshIndex fun _ => .pure _

theorem succeeds_ident (name : String) : SucceedsIff (ident name) True :=
  .after succeeds_position fun start => .after (succeeds_write name) fun _ =>
    .after (succeeds_spanFrom start) fun _ => .pure _

theorem succeeds_localVar (v : Ident) : SucceedsIff (localVar v) True :=
  .after succeeds_freshIndex fun _ => .pure _

theorem succeeds_expr (property : Option String) (text : String) :
    SucceedsIff (expr property text) (Reading.Accepts text) := by
  apply SucceedsIff.after succeeds_position
  intro start
  apply SucceedsIff.after (succeeds_write text)
  intro _
  unfold Reading.Accepts
  cases Reading.parse text with
  | error cause => exact (SucceedsIff.throw _).of_iff (by simp)
  | ok reading =>
    have placed := (SucceedsIff.modifyGet (ε := DeclarationError) fun d : Draft =>
      (d.next, { d with next := d.next + reading.indices })).after fun first =>
        SucceedsIff.pure (reading.expr.place start first)
    exact placed.of_iff (by simp)

theorem succeeds_property (key text : String) :
    SucceedsIff (property key text) (Reading.Accepts text) := by
  apply SucceedsIff.after (succeeds_write _)
  intro _
  apply SucceedsIff.after succeeds_position
  intro start
  apply SucceedsIff.after (succeeds_write _)
  intro _
  apply SucceedsIff.after (succeeds_write _)
  intro _
  apply SucceedsIff.before (succeeds_expr _ text)
  intro value
  exact .after (succeeds_spanFrom start) fun _ => .after succeeds_newline fun _ => .pure _

theorem succeeds_object (properties : Std.TreeMap String String) :
    SucceedsIff (object properties)
      (∀ text ∈ properties.toList.map (·.2), Reading.Accepts text) := by
  apply SucceedsIff.after succeeds_position
  intro start
  apply SucceedsIff.after (succeeds_write _)
  intro _
  apply SucceedsIff.after succeeds_newline
  intro _
  have read := SucceedsIff.mapM (fun pair : String × String => succeeds_property pair.1 pair.2)
    properties.toList
  apply SucceedsIff.before (read.of_iff List.forall_mem_map.symm)
  intro ps
  exact .after (succeeds_write _) fun _ => .after (succeeds_node start) fun _ => .pure _

theorem succeeds_conditional (condition : Option String)
    (properties : Std.TreeMap String String) : SucceedsIff (conditional condition properties)
      (∀ text ∈ condition.toList ++ properties.toList.map (·.2), Reading.Accepts text) := by
  cases condition with
  | none => exact (succeeds_object properties).before fun value => .pure _
  | some text =>
    apply SucceedsIff.after succeeds_position
    intro start
    apply SucceedsIff.after (succeeds_write _)
    intro _
    have inner : ∀ condition, SucceedsIff (do
        write ") "
        let value ← object properties
        return Body.conditional (← spanFrom start) condition (.object value))
        (∀ text ∈ properties.toList.map (·.2), Reading.Accepts text) := by
      intro condition
      apply SucceedsIff.after (succeeds_write _)
      intro _
      exact (succeeds_object properties).before fun value =>
        .after (succeeds_spanFrom start) fun _ => .pure _
    exact ((succeeds_expr _ text).bind inner).of_iff List.forall_mem_cons.symm

theorem succeeds_loopVariables (loop : LoopSpec) : SucceedsIff (loopVariables loop) True := by
  unfold loopVariables
  cases loop.index with
  | none => exact .after (succeeds_ident _) fun _ => .pure _
  | some index =>
    apply SucceedsIff.after (succeeds_write _)
    intro _
    apply SucceedsIff.after (succeeds_ident _)
    intro item
    apply SucceedsIff.after (succeeds_write _)
    intro _
    exact .after (succeeds_ident _) fun _ => .after (succeeds_write _) fun _ => .pure _

theorem succeeds_body (loop : Option LoopSpec) (condition : Option String)
    (properties : Std.TreeMap String String) : SucceedsIff (body loop condition properties)
      (∀ text ∈ expressionTexts loop condition properties, Reading.Accepts text) := by
  unfold expressionTexts
  rw [List.append_assoc, List.forall_mem_append]
  cases loop with
  | none => exact (succeeds_conditional condition properties).of_iff (by simp)
  | some loop =>
    apply SucceedsIff.after succeeds_position
    intro start
    apply SucceedsIff.after (succeeds_write _)
    intro _
    apply SucceedsIff.after (succeeds_loopVariables loop)
    intro vars
    apply SucceedsIff.after (succeeds_write _)
    intro _
    apply SucceedsIff.bind ((succeeds_expr _ loop.collection).of_iff List.forall_mem_singleton.symm)
    intro collection
    apply SucceedsIff.after (succeeds_write _)
    intro _
    apply SucceedsIff.after (succeeds_localVar _)
    intro item
    apply SucceedsIff.after (SucceedsIff.mapM_option succeeds_localVar _)
    intro index
    apply SucceedsIff.before (succeeds_conditional condition properties)
    intro inner
    exact .after (succeeds_write _) fun _ => .after (succeeds_spanFrom start) fun _ => .pure _

theorem succeeds_resource (spec : ResourceSpec) (symbol : SymbolId) :
    SucceedsIff (resource spec symbol) ((∃ type, ResourceType.parse spec.typeText = .ok type) ∧
      ∀ text ∈ spec.texts, Reading.Accepts text) := by
  unfold resource
  -- `declare` is what follows once the type is read, and `finish` what follows its keyword
  extract_lets declare
  have hdeclare : ∀ type, SucceedsIff (declare type)
      (∀ text ∈ spec.texts, Reading.Accepts text) := by
    intro type
    apply SucceedsIff.after succeeds_position
    intro start
    apply SucceedsIff.after (succeeds_write _)
    intro _
    apply SucceedsIff.after (succeeds_ident _)
    intro name
    apply SucceedsIff.after (succeeds_write _)
    intro _
    extract_lets finish
    have hfinish : ∀ u, SucceedsIff (finish u) (∀ text ∈ spec.texts, Reading.Accepts text) := by
      intro u
      apply SucceedsIff.after (succeeds_write _)
      intro _
      apply SucceedsIff.before (succeeds_body spec.loop spec.condition spec.properties)
      intro body
      exact .after (succeeds_spanFrom start) fun _ => .after succeeds_newline fun _ => .pure _
    split
    · exact .after (succeeds_write _) hfinish
    · exact hfinish ()
  cases ResourceType.parse spec.typeText with
  | error cause => exact ((SucceedsIff.throw _).bind hdeclare).of_iff (by simp)
  | ok type => exact ((SucceedsIff.pure type).after hdeclare).of_iff (by simp)

theorem succeeds_module (spec : ModuleSpec) (symbol : SymbolId) :
    SucceedsIff (module spec symbol) (∀ text ∈ spec.texts, Reading.Accepts text) := by
  apply SucceedsIff.after succeeds_position
  intro start
  apply SucceedsIff.after (succeeds_write _)
  intro _
  apply SucceedsIff.after (succeeds_ident _)
  intro name
  apply SucceedsIff.after (succeeds_write _)
  intro _
  apply SucceedsIff.before (succeeds_body spec.loop spec.condition spec.properties)
  intro body
  exact .after (succeeds_spanFrom start) fun _ => .after succeeds_newline fun _ => .pure _

end Writer

namespace Blueprint

variable {b b' : Blueprint}

theorem succeeds_declaration {write : Writer α} (h : SucceedsIff write cond) (name : String)
    (context : DeclarationError → BuildError) :
    SucceedsIff (declaration name write context) cond := by
  intro d
  rw [← h d]
  change (∃ r, declaration name write context d = .ok r) ↔ _
  unfold declaration
  cases write.run d with
  | error cause => simp
  | ok result => simp

theorem forall_numberedResources_iff (b : Blueprint) (P : ResourceSpec → Prop) :
    (∀ pair ∈ b.numberedResources, P pair.1) ↔ ∀ r ∈ b.resources, P r := by
  rw [← b.map_fst_numberedResources, List.forall_mem_map]

theorem forall_numberedModules_iff (b : Blueprint) (P : ModuleSpec → Prop) :
    (∀ pair ∈ b.numberedModules, P pair.1) ↔ ∀ m ∈ b.modules, P m := by
  rw [← b.map_fst_numberedModules, List.forall_mem_map]

theorem exists_written_iff : (∃ result, b.written = .ok result) ↔
    (∀ r ∈ b.resources, ∃ type, ResourceType.parse r.typeText = .ok type) ∧
      ∀ text ∈ b.texts, Reading.Accepts text := by
  have hresources := SucceedsIff.mapM (fun pair : ResourceSpec × SymbolId =>
    succeeds_declaration (Writer.succeeds_resource pair.1 pair.2) pair.1.name
      (BuildError.resource pair.1.name)) b.numberedResources
  have hresources := hresources.of_iff (b.forall_numberedResources_iff fun r =>
    (∃ type, ResourceType.parse r.typeText = .ok type) ∧ ∀ text ∈ r.texts, Reading.Accepts text)
  have hmodules := SucceedsIff.mapM (fun pair : ModuleSpec × SymbolId =>
    succeeds_declaration (Writer.succeeds_module pair.1 pair.2) pair.1.name
      (BuildError.module pair.1.name)) b.numberedModules
  have hmodules := hmodules.of_iff (b.forall_numberedModules_iff fun m =>
    ∀ text ∈ m.texts, Reading.Accepts text)
  have htexts : ((∀ r ∈ b.resources, (∃ type, ResourceType.parse r.typeText = .ok type) ∧
      ∀ text ∈ r.texts, Reading.Accepts text) ∧
      ∀ m ∈ b.modules, ∀ text ∈ m.texts, Reading.Accepts text) ↔
      (∀ r ∈ b.resources, ∃ type, ResourceType.parse r.typeText = .ok type) ∧
        ∀ text ∈ b.texts, Reading.Accepts text := by
    simp only [texts, List.forall_mem_append, List.forall_mem_flatMap, forall_and, and_assoc]
  rw [← htexts]
  unfold written
  simp only [bind_eq_ok_iff]
  constructor
  · rintro ⟨_, ⟨resources, d⟩, hr, ⟨modules, d'⟩, hm, -⟩
    exact ⟨(hresources b.header).mp ⟨_, hr⟩, (hmodules d).mp ⟨_, hm⟩⟩
  · rintro ⟨hr, hm⟩
    obtain ⟨⟨resources, d⟩, hr⟩ := (hresources b.header).mpr hr
    obtain ⟨⟨modules, d'⟩, hm⟩ := (hmodules d).mpr hm
    exact ⟨_, _, hr, _, hm, rfl⟩

/-! ## Requirements -/

/-- The names of all declarations. -/
def declaredNames (b : Blueprint) : List String :=
  b.params ++ b.vars ++ b.resources.map (·.name) ++ b.modules.map (·.name)

/-- What a blueprint has to fulfil. -/
inductive Requirement where
  | distinctNames | types | texts | parents | acyclic | scopes | scopeKinds

def Requirement.Met (b : Blueprint) : Requirement → Prop
  | distinctNames => b.declaredNames.Nodup
  | types => ∀ r ∈ b.resources, ∃ type, ResourceType.parse r.typeText = .ok type
  | texts => ∀ text ∈ b.texts, Reading.Accepts text
  | parents => ∀ r ∈ b.resources, ∀ parent ∈ r.parent, ∃ q ∈ b.resources, q.name = parent
  | acyclic => ∀ r ∈ b.resources, ¬Relation.TransGen b.HasParent r.name r.name
  | scopes => ∀ r ∈ b.resources, ∀ scope ∈ r.scope, scope ∈ b.declaredNames
  | scopeKinds => ∀ m ∈ b.modules,
    m.scopeKind ∈ ["none", "tenant", "managementGroup", "subscription", "resourceGroup"]

/-- The same declarations, in another order inside each list. -/
structure Reorders (b b' : Blueprint) : Prop where
  params : b.params.Perm b'.params
  vars : b.vars.Perm b'.vars
  resources : b.resources.Perm b'.resources
  modules : b.modules.Perm b'.modules

namespace Reorders

theorem symm (h : b.Reorders b') : b'.Reorders b :=
  ⟨h.params.symm, h.vars.symm, h.resources.symm, h.modules.symm⟩

theorem declaredNames (h : b.Reorders b') : b.declaredNames.Perm b'.declaredNames :=
  ((h.params.append h.vars).append (h.resources.map _)).append (h.modules.map _)

theorem texts (h : b.Reorders b') : b.texts.Perm b'.texts :=
  (h.resources.flatMap_right _).append (h.modules.flatMap_right _)

theorem hasParent (h : b.Reorders b') {child parent : String} :
    b.HasParent child parent ↔ b'.HasParent child parent := by
  simp only [HasParent, h.resources.mem_iff]

end Reorders

theorem Requirement.Met.reorder {r : Requirement} (h : b.Reorders b') (met : r.Met b) :
    r.Met b' := by
  cases r with
  | distinctNames => exact h.declaredNames.nodup_iff.mp met
  | types => exact fun r hr => met r (h.resources.mem_iff.mpr hr)
  | texts => exact fun text htext => met text (h.texts.mem_iff.mpr htext)
  | parents =>
    intro r hr parent hparent
    obtain ⟨q, hq, hname⟩ := met r (h.resources.mem_iff.mpr hr) parent hparent
    exact ⟨q, h.resources.mem_iff.mp hq, hname⟩
  | acyclic =>
    intro r hr hcycle
    have hcycle' := Relation.TransGen.mono (fun _ _ => h.hasParent.mpr) _ _ hcycle
    exact met r (h.resources.mem_iff.mpr hr) hcycle'
  | scopes =>
    intro r hr scope hscope
    exact h.declaredNames.mem_iff.mp (met r (h.resources.mem_iff.mpr hr) scope hscope)
  | scopeKinds => exact fun m hm => met m (h.modules.mem_iff.mpr hm)

theorem map_fst_globals (b : Blueprint) : b.globals.map (·.1) = b.declaredNames := by
  simp [globals, declaredNames, Function.comp_def]

theorem map_fst_zipIdx_globals (b : Blueprint) :
    b.globals.zipIdx.map (·.1.1) = b.declaredNames := by
  have hglobals := congrArg (List.map Prod.fst) (b.globals.zipIdx_map_fst 0)
  rw [List.map_map, map_fst_globals] at hglobals
  exact hglobals

theorem nodup_resources (h : b.declaredNames.Nodup) : (b.resources.map (·.name)).Nodup :=
  (List.nodup_append.mp (List.nodup_append.mp h).1).2.1

theorem exists_lookup_names_iff {name : String} :
    (∃ symbol, b.names.lookup name = some symbol) ↔ name ∈ b.declaredNames := by
  rw [← Option.isSome_iff_exists, lookup_names, Option.isSome_map, List.find?_isSome,
    ← map_fst_zipIdx_globals, List.mem_map]
  simp only [beq_iff_eq]

theorem exists_resourceScopes_iff : (∃ scopes, b.resourceScopes = .ok scopes) ↔
    Requirement.scopes.Met b := by
  have all : (∃ scopes, b.resourceScopes = .ok scopes) ↔ ∀ pair ∈ b.numberedResources,
      ∀ scope ∈ pair.1.scope, scope ∈ b.declaredNames := by
    apply exists_foldlM_iff
    intro pair _ scopes
    dsimp only
    cases hscope : pair.1.scope with
    | none => exact ⟨nofun, fun _ => ⟨_, rfl⟩⟩
    | some scope =>
      simp only [Option.mem_some_iff, forall_eq', ← exists_lookup_names_iff]
      cases b.names.lookup scope with
      | none => simp [throw, throwThe, MonadExceptOf.throw]
      | some target => exact ⟨fun _ => ⟨_, rfl⟩, fun _ => ⟨_, rfl⟩⟩
  exact all.trans (b.forall_numberedResources_iff fun r =>
    ∀ scope ∈ r.scope, scope ∈ b.declaredNames)

theorem ofWord?_ne_none_iff {word : String} : ScopeKind.ofWord? word ≠ none ↔
    word ∈ ["none", "tenant", "managementGroup", "subscription", "resourceGroup"] := by
  unfold ScopeKind.ofWord?
  split <;> simp_all

theorem exists_moduleScopes_iff : (∃ scopes, b.moduleScopes = .ok scopes) ↔
    Requirement.scopeKinds.Met b := by
  have all : (∃ scopes, b.moduleScopes = .ok scopes) ↔ ∀ pair ∈ b.numberedModules,
      pair.1.scopeKind ∈
        ["none", "tenant", "managementGroup", "subscription", "resourceGroup"] := by
    apply exists_foldlM_iff
    intro pair _ scopes
    dsimp only
    rw [← ofWord?_ne_none_iff]
    split
    next h => simp [h, throw, throwThe, MonadExceptOf.throw]
    next h => exact ⟨fun _ => by simp [h], fun _ => ⟨_, rfl⟩⟩
    next h => exact ⟨fun _ => by simp [h], fun _ => ⟨_, rfl⟩⟩
  exact all.trans (b.forall_numberedModules_iff fun m => m.scopeKind ∈
    ["none", "tenant", "managementGroup", "subscription", "resourceGroup"])

/-! ## Building -/

/-- A blueprint that fulfils its requirements is built. -/
theorem exists_build_iff : (∃ built, b.build = .ok built) ↔ ∀ r : Requirement, r.Met b := by
  constructor
  · rintro ⟨built, hbuild⟩
    have of := of_build hbuild
    have hnames : b.declaredNames.Nodup := by
      rw [← map_fst_globals]
      exact (firstRepeated?_eq_none_iff.mp of.distinct).1
    have hresources : (b.resources.map (·.name)).Nodup := nodup_resources hnames
    obtain ⟨htypes, htexts⟩ := exists_written_iff.mp ⟨_, of.written⟩
    obtain ⟨hparents, hacyclic⟩ := (exists_ancestry_iff hresources).mp ⟨_, of.ancestors⟩
    have hscopes := exists_resourceScopes_iff.mp ⟨_, of.resourceScopes⟩
    have hkinds := exists_moduleScopes_iff.mp ⟨_, of.moduleScopes⟩
    intro r
    cases r with
    | distinctNames => exact hnames
    | types => exact htypes
    | texts => exact htexts
    | parents => exact hparents
    | acyclic => exact hacyclic
    | scopes => exact hscopes
    | scopeKinds => exact hkinds
  · intro met
    have hnames : b.declaredNames.Nodup := met .distinctNames
    have hdistinct : firstRepeated? [] (b.globals.map (·.1)) = none := by
      rw [firstRepeated?_eq_none_iff, map_fst_globals]
      exact ⟨hnames, fun _ _ => List.not_mem_nil⟩
    obtain ⟨⟨program, contents, extents⟩, hwritten⟩ :=
      exists_written_iff.mpr ⟨met .types, met .texts⟩
    obtain ⟨ancestry, hancestry⟩ :=
      (exists_ancestry_iff (nodup_resources hnames)).mpr ⟨met .parents, met .acyclic⟩
    obtain ⟨resourceScopes, hscopes⟩ := exists_resourceScopes_iff.mpr (met .scopes)
    obtain ⟨moduleScopes, hkinds⟩ := exists_moduleScopes_iff.mpr (met .scopeKinds)
    obtain ⟨symbols, hsymbols, -⟩ :=
      SymbolTable.exists_bindAll (ready (written_of_written hwritten))
    have hbound : (b.symbols.bindAll b.names (program.resources.map (·.body) ++
        program.modules.map (·.body))).mapError BuildError.binding = .ok symbols := by
      rw [← Program.bodies, hsymbols]
      rfl
    unfold build
    simp only [hdistinct, hwritten, hancestry, hscopes, hkinds, Bind.bind, Except.bind, hbound]
    exact ⟨_, rfl⟩

/-! ## Errors -/

theorem mapM_run_ne_error {f : α → StateT σ (Except ε) β} {e : ε}
    (step : ∀ x s, (f x).run s ≠ .error e) (xs : List α) (s : σ) :
    (xs.mapM f).run s ≠ .error e := by
  induction xs generalizing s with
  | nil => nofun
  | cons x xs ih =>
    rw [List.mapM_cons, StateT.run_bind]
    apply bind_ne_error (step x s)
    rintro ⟨y, s'⟩ -
    rw [StateT.run_bind]
    exact bind_ne_error (ih s') fun _ _ => nofun

theorem declaration_ne_error {write : Writer α} {name : String}
    {context : DeclarationError → BuildError} {e : BuildError} (h : ∀ cause, context cause ≠ e)
    (d : Draft) : (declaration name write context).run d ≠ .error e := by
  change declaration name write context d ≠ .error e
  unfold declaration
  split
  next cause _ => exact fun heq => h cause (Except.error.inj heq)
  next => nofun

theorem written_ne_binding {cause : BindError} : b.written ≠ .error (.binding cause) := by
  apply bind_ne_error
  · apply mapM_run_ne_error
    exact fun pair => declaration_ne_error nofun
  · rintro ⟨resources, d⟩ -
    apply bind_ne_error
    · apply mapM_run_ne_error
      exact fun pair => declaration_ne_error nofun
    · exact fun _ _ => nofun

theorem parentChain_ne_binding {root : String} {bound : Nat} {spec : ResourceSpec}
    {cause : BindError} : b.parentChain root bound spec ≠ .error (.binding cause) := by
  induction bound generalizing spec with
  | zero =>
    unfold parentChain
    split
    next => rintro ⟨⟩
    next => split <;> rintro ⟨⟩
  | succ bound ih =>
    unfold parentChain
    split
    next => rintro ⟨⟩
    next =>
      split
      next => rintro ⟨⟩
      next => exact bind_ne_error ih fun _ _ => by rintro ⟨⟩

/-- The last step never fails. -/
theorem build_ne_binding {cause : BindError} : b.build ≠ .error (.binding cause) := by
  unfold build
  dsimp only
  split
  next => rintro ⟨⟩
  next =>
    apply bind_ne_error written_ne_binding
    rintro ⟨program, contents, extents⟩ hwritten
    have hancestry : b.ancestry ≠ .error (.binding cause) := by
      apply foldlM_ne_error
      intro ancestry pair
      exact bind_ne_error parentChain_ne_binding fun _ _ => by rintro ⟨⟩
    apply bind_ne_error hancestry
    intro ancestors _
    have hscopes : b.resourceScopes ≠ .error (.binding cause) := by
      apply foldlM_ne_error
      intro scopes pair
      dsimp only
      split
      next => rintro ⟨⟩
      next => split <;> rintro ⟨⟩
    apply bind_ne_error hscopes
    intro resourceScopes _
    have hkinds : b.moduleScopes ≠ .error (.binding cause) := by
      apply foldlM_ne_error
      intro scopes pair
      dsimp only
      split <;> rintro ⟨⟩
    apply bind_ne_error hkinds
    intro moduleScopes _
    obtain ⟨symbols, hsymbols, -⟩ :=
      SymbolTable.exists_bindAll (ready (written_of_written hwritten))
    rw [← Program.bodies, hsymbols]
    rintro ⟨⟩

/-! ## Names and texts -/

theorem lookup_of_mem_names (hnodup : b.declaredNames.Nodup) {name : String} {symbol : SymbolId}
    (hmem : (name, symbol) ∈ b.names) : b.names.lookup name = some symbol := by
  have hkeys : b.names.map Prod.fst = b.declaredNames := by
    rw [← map_fst_zipIdx_globals, names, List.map_map]
    rfl
  obtain ⟨before, after, hsplit⟩ := List.append_of_mem hmem
  rw [← hkeys, hsplit, List.map_append, List.nodup_append] at hnodup
  refine List.lookup_eq_some_iff.mpr ⟨before, after, hsplit, ?_⟩
  intro pair hpair
  have hne := hnodup.2.2 pair.1 (List.mem_map_of_mem hpair) name List.mem_cons_self
  exact bne_iff_ne.mpr (Ne.symm hne)

/-- Where names are distinct, each resource and each module is found under its own name. -/
theorem lookup_own_names (hnodup : b.declaredNames.Nodup) :
    (∀ pair ∈ b.numberedResources, b.names.lookup pair.1.name = some pair.2) ∧
      ∀ pair ∈ b.numberedModules, b.names.lookup pair.1.name = some pair.2 := by
  have own {i : Nat} {name : String} (kind : SymbolKind)
      (hget : b.globals[i]? = some (name, kind)) : b.names.lookup name = some ⟨i⟩ := by
    apply lookup_of_mem_names hnodup
    exact List.mem_map.mpr ⟨((name, kind), i), List.mem_zipIdx_iff_getElem?.mpr hget, rfl⟩
  constructor
  · intro pair hpair
    obtain ⟨⟨spec, i⟩, hmem, rfl⟩ := List.mem_map.mp hpair
    obtain ⟨hle, hget⟩ := List.mem_zipIdx_iff_le_and_getElem?_sub.mp hmem
    have hlt : i - (b.params.length + b.vars.length) < b.resources.length :=
      (List.getElem?_eq_some_iff.mp hget).1
    apply own .resource
    rw [globals, List.getElem?_append_left, List.getElem?_append_right]
    · simp [hget]
    · simpa using hle
    · simp only [List.length_append, List.length_map]
      omega
  · intro pair hpair
    obtain ⟨⟨spec, i⟩, hmem, rfl⟩ := List.mem_map.mp hpair
    obtain ⟨hle, hget⟩ := List.mem_zipIdx_iff_le_and_getElem?_sub.mp hmem
    rw [Nat.add_assoc] at hle hget
    apply own .module
    rw [globals, List.getElem?_append_right]
    · simp [hget]
    · simpa using hle

/-! ## When a blueprint is built -/

/-- No name that is in sight has a say in whether a text is read. -/
theorem exists_read_iff {state : OnePass.BinderState} (h : state.Reachable) (text : String)
    (base : Position) {depth : Nat} (hdepth : OnePass.nesting text.toList ≤ depth) :
    (∃ e s, OnePass.read depth text base state = some (.ok e, s)) ↔ Reading.Accepts text := by
  obtain ⟨s, hread, -⟩ := OnePass.exists_read text base h.closed hdepth
  rw [hread, Reading.Accepts]
  cases Reading.parse text with
  | ok reading => exact ⟨fun _ => ⟨reading, rfl⟩, fun _ => ⟨_, s, rfl⟩⟩
  | error cause => simp [OnePass.answer]

/-- A blueprint is built just if it meets its requirements. No order inside a list and no name in
sight has a say in it, no name is refused by the binder, and no declaration is looked up in vain. -/
theorem exists_build_iff_met (b : Blueprint) :
    ((∃ built, b.build = .ok built) ↔ ∀ r : Requirement, r.Met b) ∧
    (∀ b', b.Reorders b' → ∀ r : Requirement, r.Met b ↔ r.Met b') ∧
    (∀ state : OnePass.BinderState, state.Reachable → ∀ (text : String) (base : Position)
      (depth : Nat), OnePass.nesting text.toList ≤ depth →
      ((∃ e s, OnePass.read depth text base state = some (.ok e, s)) ↔ Reading.Accepts text)) ∧
    (∀ cause, b.build ≠ .error (.binding cause)) ∧
    (b.declaredNames.Nodup →
      (∀ pair ∈ b.numberedResources, b.names.lookup pair.1.name = some pair.2) ∧
        ∀ pair ∈ b.numberedModules, b.names.lookup pair.1.name = some pair.2) := by
  refine ⟨exists_build_iff, ?_, ?_, ?_, lookup_own_names⟩
  · exact fun b' h r => ⟨fun met => met.reorder h, fun met => met.reorder h.symm⟩
  · exact fun state h text base depth hdepth => exists_read_iff h text base hdepth
  · exact fun cause => build_ne_binding

/-- A child in front of its parent, onto which a parameter is deployed. -/
def childFirst : Blueprint where
  params := ["region"]
  resources := [
    { name := "child", typeText := "Ns/stores/items@1", parent := some "store"
      scope := some "region", properties := .ofList [("name", "'→$\x7bregion\x7d'")] },
    { name := "store", typeText := "Ns/stores@1" }]
  modules := [{ name := "rest", scopeKind := "tenant" }]

theorem exists_build_iff_met_childFirst : ∃ b' : Blueprint, childFirst.Reorders b' ∧
    b'.resources.map (·.name) = ["store", "child"] ∧
    (∃ built, childFirst.build = .ok built) ∧ (∃ built, b'.build = .ok built) ∧
    (∃ e s, OnePass.read 240 "'→$\x7bregion\x7d'" {} {} = some (.ok e, s)) ∧
    ∀ pair ∈ childFirst.numberedModules, childFirst.names.lookup pair.1.name = some pair.2 := by
  have hok : childFirst.build.isOk = true := by decide +kernel
  have builds : ∃ built, childFirst.build = .ok built := by
    cases hbuild : childFirst.build with
    | ok built => exact ⟨built, rfl⟩
    | error cause =>
      rw [hbuild] at hok
      cases hok
  obtain ⟨hiff, hreorder, hread, -, hlookup⟩ := exists_build_iff_met childFirst
  have met := hiff.mp builds
  have reorders : childFirst.Reorders
      { childFirst with resources := childFirst.resources.reverse } :=
    ⟨.refl _, .refl _, (List.reverse_perm _).symm, .refl _⟩
  have builds' := (exists_build_iff_met _).1.mpr fun r => (hreorder _ reorders r).mp (met r)
  have htext : "'→$\x7bregion\x7d'" ∈ childFirst.texts := by decide +kernel
  have read := (hread {} .initial _ {} 240 (by decide +kernel)).mpr (met .texts _ htext)
  exact ⟨_, reorders, rfl, builds, builds', read, (hlookup (met .distinctNames)).2⟩

end Blueprint

end Preflight
