import Preflight.Proofs.Blueprint.Bound
import Preflight.Proofs.Check.Codes
import Preflight.Proofs.Expr.FreeNames

/-! # Variation, told from the blueprint

Which loops of a built program are reported can be told from the texts of the blueprint alone: by
the names that occur free in them. -/

namespace Preflight
set_option autoImplicit false

/-- The names that a text mentions and does not bind itself; none if it is no expression. -/
def freeNamesOf (text : String) : List String :=
  match Reading.parse text with
  | .ok reading => reading.expr.freeNames
  | .error _ => []

/-- Whether a text mentions no variable of the loop. -/
def LoopSpec.isConstant (loop : LoopSpec) (text : String) : Bool :=
  (loop.item :: loop.index.toList).all (· ∉ freeNamesOf text)

/-- The finding about a looped resource: one of the properties that tell resources apart is
constant. Existing resources, and those whose body may be of several types, are passed over. -/
def ResourceSpec.constantLoop? (spec : ResourceSpec) (span : Span) : Option Diagnostic := do
  let loop ← spec.loop
  let declared :=
    ["name", "parent", "scope"].filter (· ∈ spec.bodyProperties.getD usualProperties)
  let texts := declared.filterMap (spec.properties[·]?)
  guard (!spec.existing ∧ !spec.discriminated ∧ texts.any loop.isConstant)
  return .loopInvariant span loop.item loop.index declared

/-- The finding about a looped module: all of the properties that tell modules apart are constant,
and at least one is set. -/
def ModuleSpec.constantLoop? (spec : ModuleSpec) (span : Span) : Option Diagnostic := do
  let loop ← spec.loop
  let declared := ["name", "scope"].filter (· ∈ spec.bodyProperties.getD usualProperties)
  let texts := declared.filterMap (spec.properties[·]?)
  guard (texts ≠ [] ∧ texts.all loop.isConstant)
  return .loopInvariant span loop.item loop.index declared

theorem Expr.ReadFrom.freeNames_eq {text : String} {e : Expr} (h : e.ReadFrom text) :
    e.freeNames = freeNamesOf text := by
  obtain ⟨reading, p, first, hparse, rfl⟩ := h
  rw [freeNamesOf, hparse, Expr.place, Expr.freeNames_map]

/-! ## What a body sets -/

theorem find?_toList (properties : Std.TreeMap String String) (key : String) :
    properties.toList.find? (·.1 == key) = properties[key]?.map (key, ·) := by
  have hpred : (fun pair : String × String => pair.1 == key) =
      fun pair => compare pair.1 key == .eq := by
    funext pair
    rw [Bool.eq_iff_iff, beq_iff_eq, beq_iff_eq, Std.LawfulEqCmp.compare_eq_iff_eq]
  rw [hpred]
  cases h : properties[key]? with
  | none =>
    rw [Option.map_none, Std.TreeMap.find?_toList_eq_none_iff_not_mem,
      Std.TreeMap.mem_iff_isSome_getElem?, h]
    exact Bool.false_ne_true
  | some text =>
    rw [Option.map_some,
      Std.TreeMap.find?_toList_eq_some_iff_getKey?_eq_some_and_getElem?_eq_some]
    refine ⟨?_, h⟩
    have hmem : key ∈ properties := by simp [Std.TreeMap.mem_iff_isSome_getElem?, h]
    exact Std.TreeMap.getKey?_eq_some hmem

/-- The first items that are looked for match if all items do. -/
theorem rel_find? {α β : Type} {R : α → β → Prop} {p : α → Bool} {q : β → Bool}
    (hpq : ∀ x y, R x y → p x = q y) {xs : List α} {ys : List β} (h : List.Forall₂ R xs ys) :
    Option.Rel (fun x y => R x y ∧ y ∈ ys) (xs.find? p) (ys.find? q) := by
  induction h with
  | nil => exact .none
  | @cons x y xs ys hxy htail ih =>
    rw [List.find?_cons, List.find?_cons, hpq x y hxy]
    cases q y with
    | true => exact .some ⟨hxy, List.mem_cons_self⟩
    | false =>
      show Option.Rel _ (xs.find? p) (ys.find? q)
      generalize xs.find? p = first, ys.find? q = second at ih ⊢
      cases ih with
      | none => exact .none
      | some h => exact .some ⟨h.1, List.mem_cons_of_mem y h.2⟩

/-- The properties of an object are the texts it was written from, key by key. -/
theorem Expr.Sets.property?_rel {properties : Std.TreeMap String String} {e : Expr}
    (h : e.Sets properties) (key : String) :
    Option.Rel (fun text value => value.ReadFrom text ∧ value ∈ e.children)
      properties[key]? (e.property? key) := by
  obtain ⟨n, ps, rfl, hps⟩ := h
  have hkeys : ∀ (pair : String × String) (p : Property Expr),
      p.key = pair.1 ∧ p.value.ReadFrom pair.2 → (pair.1 == key) = (p.key == key) := by
    intro pair p h
    rw [h.1]
  have hfind := rel_find? hkeys hps
  rw [find?_toList] at hfind
  show Option.Rel _ _ ((ps.find? (·.key == key)).map (·.value))
  generalize properties[key]? = text, ps.find? (·.key == key) = found at hfind ⊢
  cases text with
  | none =>
    cases hfind
    exact .none
  | some text =>
    cases hfind with
    | some h => exact .some ⟨h.1.2, List.mem_map_of_mem h.2⟩

theorem Expr.Sets.isPlain {properties : Std.TreeMap String String} {e : Expr}
    (h : e.Sets properties) : e.isPlain := by
  obtain ⟨n, ps, rfl, -⟩ := h
  rfl

/-- Below a condition, if there is one, stands the object of the body, bound like the body. -/
theorem Body.WrittenOnce.object? {properties : Std.TreeMap String String}
    {condition : Option String} {body : Body} (h : body.WrittenOnce properties condition) :
    ∃ value, body.object? = some value ∧ value.Sets properties ∧
      ∀ {t : SymbolTable} {names : Names}, body.Bound t names → Expr.Bound t names value := by
  cases h with
  | always sets =>
    obtain ⟨n, ps, rfl, hps⟩ := sets
    exact ⟨_, rfl, ⟨n, ps, rfl, hps⟩, fun h => h⟩
  | conditional read sets =>
    obtain ⟨n, ps, rfl, hps⟩ := sets
    exact ⟨_, rfl, ⟨n, ps, rfl, hps⟩, fun h => h.2⟩

theorem Body.WrittenOnce.loopHead? {properties : Std.TreeMap String String}
    {condition : Option String} {body : Body} (h : body.WrittenOnce properties condition) :
    body.loopHead? = none := by
  cases h <;> rfl

theorem hasProperty_bodyType (name : String) (properties : List String) :
    (bodyType name properties).hasProperty = fun p => decide (p ∈ properties) := by
  funext p
  have keep (properties : List String) (type : ObjectType) :
      (properties.foldl (fun type p => type.withProperty p .any (p == "name")) type).hasProperty p =
        (type.hasProperty p || decide (p ∈ properties)) := by
    induction properties generalizing type with
    | nil => simp
    | cons q properties ih =>
      rw [List.foldl_cons, ih, ObjectOf.hasProperty_withProperty]
      by_cases h : q = p
      · simp [h]
      · rw [beq_eq_false_iff_ne.mpr h]
        simp [Ne.symm h]
  rw [bodyType, keep]
  rfl

/-! ## Findings -/

variable {t : SymbolTable} {names : Names} {loop : LoopSpec} {head : LoopHead} {inner : Body}
  {condition : Option String} {properties : Std.TreeMap String String}

/-- Of what a written loop sets, just the texts that mention no loop variable are invariant. -/
theorem LoopHead.Written.isInvariant_eq (hhead : head.Written loop)
    (hbound : (Body.loop head inner).Bound t names)
    (hwritten : inner.WrittenOnce properties condition) {value object : Expr} {text : String}
    (hobject : inner.object? = some object) (hmem : value ∈ object.children)
    (hread : value.ReadFrom text) : head.isInvariant t value = loop.isConstant text := by
  obtain ⟨-, inside, declares, hinside⟩ := hbound
  obtain ⟨object', hobject', hsets, hbound'⟩ := hwritten.object?
  obtain rfl : object = object' := Option.some.inj (hobject.symm.trans hobject')
  have hvalue := (hbound' hinside).of_mem_children hsets.isPlain hmem
  rw [Bool.eq_iff_iff, isInvariant, hvalue.isInvariant_iff declares, hread.freeNames_eq,
    LoopSpec.isConstant, ← hhead.item, ← hhead.index]
  simp [Option.toList_map]

theorem Quantifier.holds_congr {α β : Type} (quantifier : Quantifier) {p : α → Bool} {q : β → Bool}
    {xs : List α} {ys : List β} (h : List.Forall₂ (fun x y => p x = q y) xs ys) :
    quantifier.holds p xs = quantifier.holds q ys := by
  induction h with
  | nil => cases quantifier <;> rfl
  | cons hxy _ ih => cases quantifier <;> simp_all [holds]

theorem guard_bind {α : Type} (p : Prop) [Decidable p] (a : α) :
    ((guard p : Option Unit).bind fun _ => pure a) = if p then some a else none := by
  unfold guard
  split <;> rfl

/-- The check of a loop, told from its texts. -/
theorem VariationRule.finding?_loop (rule : VariationRule) (name : Ident) {type : TypeRef}
    {object : ObjectType} (htype : type.bodyObject? = some object) (hhead : head.Written loop)
    (hwritten : inner.WrittenOnce properties condition)
    (hbound : (Body.loop head inner).Bound t names) :
    rule.finding? t name type (.loop head inner) =
      let declared := rule.properties.filter object.hasProperty
      let texts := declared.filterMap (properties[·]?)
      if texts ≠ [] ∧ rule.quantifier.holds loop.isConstant texts then
        some (.loopInvariant name.span loop.item loop.index declared)
      else
        none := by
  obtain ⟨value, hobject, hsets, -⟩ := hwritten.object?
  -- text by text and value by value, both sides look at the same keys
  have hvalues (keys : List String) : List.Forall₂
      (fun text value => loop.isConstant text = head.isInvariant t value)
      (keys.filterMap (properties[·]?)) (keys.filterMap (Body.loop head inner).property?) := by
    refine List.rel_filterMap ?_ (List.forall₂_same.mpr fun _ _ => rfl)
    rintro key _ rfl
    have hkey : (Body.loop head inner).property? key = value.property? key := by
      rw [Body.property?, Body.object?, hobject, Option.bind_some]
    have hrel := hsets.property?_rel key
    show Option.Rel _ properties[key]? ((Body.loop head inner).property? key)
    rw [hkey]
    generalize properties[key]? = text, value.property? key = found at hrel ⊢
    cases hrel with
    | none => exact .none
    | some h => exact .some (hhead.isInvariant_eq hbound hwritten hobject h.2 h.1).symm
  have hdeclared := hvalues (rule.properties.filter object.hasProperty)
  have hholds := rule.quantifier.holds_congr hdeclared
  have hnil := hdeclared.length_eq
  simp only [finding?, Body.loopHead?, htype, Option.bind_eq_bind, Option.bind_some]
  simp only [guard_bind, ← hholds, hhead.item, hhead.index, ne_eq, ← List.length_eq_zero_iff,
    ← hnil]

/-! ## Reports -/

variable {symbol : SymbolId}

theorem ResourceDecl.Written.finding?_eq {spec : ResourceSpec} {r : ResourceDecl}
    (h : r.Written spec symbol) (hbound : r.body.Bound t names) :
    (if r.existing then none else VariationRule.resource.finding? t r.name r.type r.body) =
      spec.constantLoop? r.name.span := by
  obtain ⟨reference, -, htype⟩ := h.type
  rw [h.existing, htype, ResourceSpec.type, ResourceSpec.constantLoop?]
  have hbody := h.body
  generalize r.body = body at hbody hbound ⊢
  generalize spec.loop = loop at hbody ⊢
  cases hbody with
  | once hwritten => simp [VariationRule.finding?, hwritten.loopHead?]
  | loop hhead hwritten =>
    cases spec.discriminated with
    | true =>
      simp [VariationRule.finding?, Body.loopHead?, TypeRef.bodyObject?, declaredType, guard,
        failure]
    | false =>
      rw [VariationRule.finding?_loop .resource r.name rfl hhead hwritten hbound]
      simp only [hasProperty_bodyType, VariationRule.resource, Quantifier.holds,
        Option.bind_eq_bind, Option.bind_some, guard_bind]
      -- one constant text is enough, so it need not be said that there is a text at all
      have hany (texts : List String) (p : String → Bool) :
          (texts ≠ [] ∧ texts.any p = true) ↔ texts.any p = true := by
        refine and_iff_right_of_imp fun hp hnil => ?_
        rw [hnil] at hp
        cases hp
      simp only [hany]
      cases spec.existing <;> simp

theorem ModuleDecl.Written.finding?_eq {spec : ModuleSpec} {d : ModuleDecl}
    (h : d.Written spec symbol) (hbound : d.body.Bound t names) :
    VariationRule.module.finding? t d.name d.type d.body = spec.constantLoop? d.name.span := by
  rw [h.type, ModuleSpec.type, ModuleSpec.constantLoop?]
  have hbody := h.body
  generalize d.body = body at hbody hbound ⊢
  generalize spec.loop = loop at hbody ⊢
  cases hbody with
  | once hwritten => simp [VariationRule.finding?, hwritten.loopHead?]
  | loop hhead hwritten =>
    rw [VariationRule.finding?_loop .module d.name rfl hhead hwritten hbound]
    simp only [hasProperty_bodyType, VariationRule.module, Quantifier.holds,
      Option.bind_eq_bind, Option.bind_some, guard_bind]

/-- Findings about declarations, told of each from its specification. -/
theorem filterMap_eq_filterMap_zip {α β γ : Type} {f : β → Option γ} {g : α × β → Option γ}
    {xs : List α} {ys : List β} (hlength : xs.length = ys.length)
    (h : ∀ pair ∈ xs.zip ys, f pair.2 = g pair) : ys.filterMap f = (xs.zip ys).filterMap g := by
  calc
    ys.filterMap f = ((xs.zip ys).map Prod.snd).filterMap f := by
      rw [List.map_snd_zip (Nat.le_of_eq hlength.symm)]
    _ = (xs.zip ys).filterMap (f ∘ Prod.snd) := List.filterMap_map
    _ = (xs.zip ys).filterMap g := List.filterMap_congr h

/-! ## Findings about loops among all findings -/

namespace Model

variable (m : Model)

theorem filter_inspect_loopInvariant :
    m.inspect.diagnostics.filter (·.code == "BCP179") =
      m.resourceLoopInvariants ++ m.moduleLoopInvariants := by
  have hcode : (fun d : Diagnostic => d.code == "BCP179") =
      fun d => decide (d.code ∈ ["BCP179"]) := by
    funext d
    rw [Bool.eq_iff_iff]
    simp
  have hall : m.inspect.diagnostics =
      m.duplicateNames m.resourceScopes m.moduleScopes ++ m.incorrectQualifiers ++
        (m.resourceLoopInvariants ++ m.moduleLoopInvariants) := by
    rfl
  have hduplicates := m.stamped_duplicateNames m.resourceScopes m.moduleScopes
  rw [hcode, hall, List.filter_append, List.filter_append, hduplicates.filter_eq_nil (by simp),
    m.stamped_incorrectQualifiers.filter_eq_nil (by simp),
    m.stamped_loopInvariants.filter_eq_self (List.Subset.refl _)]
  rfl

end Model

namespace Build.Of

variable {b : Blueprint} {built : Build}

/-- Below a looped declaration of a built program stands an object, and the invariance test tells
of each of its values whether a loop variable is free in it. -/
theorem isInvariant_iff (h : built.Of b) {head : LoopHead} {inner : Body}
    (hbody : .loop head inner ∈ built.model.program.bodies) :
    ∃ n ps, (Body.loop head inner).object? = some (.object n ps) ∧ ∀ p ∈ ps,
      (head.isInvariant built.model.symbols p.value = true ↔
        ∀ v ∈ head.item :: head.index.toList, v.name ∉ p.value.freeNames) := by
  obtain ⟨condition, properties, loop, hwritten⟩ := h.program_written.body_written hbody
  obtain ⟨-, inside, declares, hinside⟩ := h.bound _ hbody
  cases hwritten with
  | once hwritten => cases hwritten
  | loop _ hwritten =>
    obtain ⟨value, hobject, ⟨n, ps, rfl, hps⟩, hbound⟩ := hwritten.object?
    refine ⟨n, ps, hobject, fun p hp => ?_⟩
    have hvalue := (hbound hinside).of_mem_children rfl (List.mem_map_of_mem hp)
    exact hvalue.isInvariant_iff declares

theorem resourceLoopInvariants_eq (h : built.Of b) :
    built.model.resourceLoopInvariants =
      (b.resources.zip built.model.program.resources).filterMap fun (spec, r) =>
        spec.constantLoop? r.name.span := by
  have hwritten := h.program_written.resources_forall₂
  rw [Model.resourceLoopInvariants, List.filterMap_filter]
  refine filterMap_eq_filterMap_zip hwritten.length_eq fun ⟨spec, r⟩ hpair => ?_
  obtain ⟨symbol, hr⟩ := List.forall₂_zip hwritten hpair
  have hmem : r.body ∈ built.model.program.bodies :=
    List.mem_append_left _ (List.mem_map_of_mem (List.of_mem_zip hpair).2)
  refine Eq.trans ?_ (hr.finding?_eq (h.bound _ hmem))
  cases r.existing <;> rfl

theorem moduleLoopInvariants_eq (h : built.Of b) :
    built.model.moduleLoopInvariants =
      (b.modules.zip built.model.program.modules).filterMap fun (spec, d) =>
        spec.constantLoop? d.name.span := by
  have hwritten := h.program_written.modules_forall₂
  refine filterMap_eq_filterMap_zip hwritten.length_eq fun ⟨spec, d⟩ hpair => ?_
  obtain ⟨symbol, hd⟩ := List.forall₂_zip hwritten hpair
  have hmem : d.body ∈ built.model.program.bodies :=
    List.mem_append_right _ (List.mem_map_of_mem (List.of_mem_zip hpair).2)
  exact hd.finding?_eq (h.bound _ hmem)

end Build.Of

/-- Exactly the loops that a blueprint tells to be constant are reported, resources first. -/
theorem Blueprint.loopFindings_eq {b : Blueprint} {built : Build} (h : b.build = .ok built) :
    (∀ head inner, .loop head inner ∈ built.model.program.bodies →
      ∃ n ps, (Body.loop head inner).object? = some (.object n ps) ∧ ∀ p ∈ ps,
        (head.isInvariant built.model.symbols p.value = true ↔
          head.item.name ∉ p.value.freeNames ∧ ∀ i ∈ head.index, i.name ∉ p.value.freeNames)) ∧
    List.Forall₂ (fun spec r => r.name.name = spec.name) b.resources
      built.model.program.resources ∧
    List.Forall₂ (fun spec d => d.name.name = spec.name) b.modules built.model.program.modules ∧
    built.model.inspect.diagnostics.filter (·.code == "BCP179") =
      ((b.resources.zip built.model.program.resources).filterMap fun (spec, r) =>
        spec.constantLoop? r.name.span) ++
      (b.modules.zip built.model.program.modules).filterMap fun (spec, d) =>
        spec.constantLoop? d.name.span := by
  have hof := of_build h
  refine ⟨?_, ?_, ?_, ?_⟩
  · intro head inner hbody
    obtain ⟨n, ps, hobject, hps⟩ := hof.isInvariant_iff hbody
    refine ⟨n, ps, hobject, fun p hp => ?_⟩
    rw [hps p hp, List.forall_mem_cons]
    simp
  · exact hof.program_written.resources_forall₂.imp fun spec r hr => hr.elim fun _ hr => hr.name
  · exact hof.program_written.modules_forall₂.imp fun spec d hd => hd.elim fun _ hd => hd.name
  · rw [Model.filter_inspect_loopInvariant, hof.resourceLoopInvariants_eq,
      hof.moduleLoopInvariants_eq]

/-- A loop whose name refers to a variable of its own with the name of the item. -/
def ResourceSpec.shadowed : ResourceSpec where
  name := "store"
  typeText := "Ns/stores@1"
  loop := some { item := "x", index := some "i", collection := "names" }
  properties := .ofList [("name", "[for x in names: x]"), ("scope", "i")]

def Blueprint.shadowed : Blueprint where
  params := ["names"]
  resources := [.shadowed]

theorem ResourceSpec.constantLoop?_shadowed (span : Span) :
    shadowed.constantLoop? span =
      some (.loopInvariant span "x" (some "i") ["name", "parent", "scope"]) := by
  have hname : freeNamesOf "[for x in names: x]" = ["names"] := by decide +kernel
  have hscope : freeNamesOf "i" = ["i"] := by decide +kernel
  have hdeclared : ["name", "parent", "scope"].filter
      (· ∈ shadowed.bodyProperties.getD usualProperties) = ["name", "parent", "scope"] := by
    decide +kernel
  have htexts : ["name", "parent", "scope"].filterMap (shadowed.properties[·]?) =
      ["[for x in names: x]", "i"] := by
    decide +kernel
  simp only [constantLoop?, hdeclared, htexts]
  simp [shadowed, guard, LoopSpec.isConstant, hname, hscope]

/-- The reference inside the name is to the inner variable, so the loop is reported. -/
theorem Blueprint.loopFindings_shadowed : ∃ built, shadowed.build = .ok built ∧
    (built.model.inspect.diagnostics.filter (·.code == "BCP179")).length = 1 := by
  have hok : shadowed.build.isOk = true := by decide +kernel
  cases h : shadowed.build with
  | error e =>
    rw [h] at hok
    cases hok
  | ok built =>
    obtain ⟨-, hresources, hmodules, hfindings⟩ := loopFindings_eq h
    refine ⟨built, rfl, ?_⟩
    rw [hfindings]
    generalize built.model.program.resources = rs, built.model.program.modules = ms at *
    cases hmodules
    obtain ⟨r, rest, -, hrest, rfl⟩ := List.forall₂_cons_left_iff.mp hresources
    cases hrest
    simp [shadowed, ResourceSpec.constantLoop?_shadowed]

end Preflight
