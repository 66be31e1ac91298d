import Preflight.Blueprint.Build
import Preflight.Proofs.Parser.Numbering

/-! # What is written

The tree of a written program says what the blueprint says, declaration by declaration, and its
indices rise in the order of the text. -/

namespace Preflight
set_option autoImplicit false

/-- The expression is what the text reads as, wherever it was written. -/
def Expr.ReadFrom (text : String) (e : Expr) : Prop :=
  ∃ reading p first, Reading.parse text = .ok reading ∧ e = reading.expr.place p first

/-- The expression is an object that sets these properties, in their order. -/
def Expr.Sets (properties : Std.TreeMap String String) (e : Expr) : Prop :=
  ∃ n ps, e = .object n ps ∧
    List.Forall₂ (fun pair p => p.key = pair.1 ∧ p.value.ReadFrom pair.2) properties.toList ps

/-- The body sets these properties, under a condition if there is one. -/
inductive Body.WrittenOnce (properties : Std.TreeMap String String) : Option String → Body → Prop
  | always {value : Expr} (sets : value.Sets properties) :
    WrittenOnce properties none (.object value)
  | conditional {span : Span} {text : String} {condition value : Expr}
    (read : condition.ReadFrom text) (sets : value.Sets properties) :
    WrittenOnce properties (some text) (.conditional span condition (.object value))

structure LoopHead.Written (loop : LoopSpec) (head : LoopHead) : Prop where
  item : head.item.name = loop.item
  index : head.index.map LocalVar.name = loop.index
  collection : head.collection.ReadFrom loop.collection

/-- The body sets these properties, under a condition and in a loop if there is one. -/
inductive Body.Written (condition : Option String) (properties : Std.TreeMap String String) :
    Option LoopSpec → Body → Prop
  | once {body : Body} (written : body.WrittenOnce properties condition) :
    Written condition properties none body
  | loop {loop : LoopSpec} {head : LoopHead} {body : Body} (headed : head.Written loop)
    (written : body.WrittenOnce properties condition) :
    Written condition properties (some loop) (.loop head body)

structure ResourceDecl.Written (spec : ResourceSpec) (symbol : SymbolId) (r : ResourceDecl) :
    Prop where
  symbol : r.symbol = symbol
  name : r.name.name = spec.name
  typeText : r.typeText = spec.typeText
  existing : r.existing = spec.existing
  type : ∃ reference, ResourceType.parse spec.typeText = .ok reference ∧
    r.type = spec.type reference
  body : r.body.Written spec.condition spec.properties spec.loop

structure ModuleDecl.Written (spec : ModuleSpec) (symbol : SymbolId) (d : ModuleDecl) : Prop where
  symbol : d.symbol = symbol
  name : d.name.name = spec.name
  path : d.path = spec.path
  type : d.type = spec.type
  body : d.body.Written spec.condition spec.properties spec.loop

namespace Writer

/-! ## Contents -/

theorem returns_ident (name : String) : Returns (ident name) fun v => v.name = name :=
  .after fun _ => .after fun _ => .after fun _ => .pure rfl

theorem returns_localVar (v : Ident) : Returns (localVar v) fun x => x.name = v.name :=
  .after fun _ => .pure rfl

theorem returns_expr (property : Option String) (text : String) :
    Returns (expr property text) (Expr.ReadFrom text) := by
  refine .after fun start => .after fun _ => ?_
  split
  next => exact .throw
  next reading h => exact .after fun first => .pure ⟨reading, start, first, h, rfl⟩

theorem returns_property (key text : String) :
    Returns (property key text) fun p => p.key = key ∧ p.value.ReadFrom text := by
  refine .after fun _ => .after fun start => .after fun _ => .after fun _ => ?_
  refine (returns_expr _ text).bind fun value hvalue => ?_
  exact .after fun _ => .after fun _ => .pure ⟨rfl, hvalue⟩

theorem returns_object (properties : Std.TreeMap String String) :
    Returns (object properties) (Expr.Sets properties) := by
  refine .after fun start => .after fun _ => .after fun _ => ?_
  refine (Returns.forall₂_mapM _ fun pair _ => returns_property pair.1 pair.2).bind fun ps hps => ?_
  exact .after fun _ => .after fun n => .pure ⟨n, ps, rfl, hps⟩

theorem returns_conditional (condition : Option String) (properties : Std.TreeMap String String) :
    Returns (conditional condition properties) (Body.WrittenOnce properties condition) := by
  cases condition with
  | none => exact (returns_object properties).bind fun value hvalue => .pure (.always hvalue)
  | some text =>
    refine .after fun start => .after fun _ => (returns_expr _ text).bind fun condition hc => ?_
    refine .after fun _ => (returns_object properties).bind fun value hvalue => ?_
    exact .after fun _ => .pure (.conditional hc hvalue)

theorem returns_loopVariables (loop : LoopSpec) : Returns (loopVariables loop) fun vars =>
    vars.1.name = loop.item ∧ vars.2.map Ident.name = loop.index := by
  unfold loopVariables
  cases h : loop.index with
  | none => exact (returns_ident _).bind fun item hitem => .pure ⟨hitem, rfl⟩
  | some name =>
    refine .after fun _ => (returns_ident _).bind fun item hitem => .after fun _ => ?_
    refine (returns_ident _).bind fun index hindex => .after fun _ => .pure ⟨hitem, ?_⟩
    exact congrArg some hindex

theorem returns_mapM_localVar (v : Option Ident) :
    Returns (v.mapM localVar) fun x => x.map LocalVar.name = v.map Ident.name := by
  cases v with
  | none => exact .pure rfl
  | some v =>
    rw [Option.mapM_some, map_eq_pure_bind]
    exact (returns_localVar v).bind fun x hx => .pure (congrArg some hx)

theorem returns_body (loop : Option LoopSpec) (condition : Option String)
    (properties : Std.TreeMap String String) :
    Returns (body loop condition properties) (Body.Written condition properties loop) := by
  cases loop with
  | none => exact (returns_conditional condition properties).imp fun _ => .once
  | some loop =>
    refine .after fun start => .after fun _ => ?_
    refine (returns_loopVariables loop).bind fun vars hvars => .after fun _ => ?_
    refine (returns_expr _ loop.collection).bind fun collection hc => .after fun _ => ?_
    refine (returns_localVar vars.1).bind fun item hitem => ?_
    refine (returns_mapM_localVar vars.2).bind fun index hindex => ?_
    refine (returns_conditional condition properties).bind fun inner hinner => .after fun _ => ?_
    exact .after fun span => .pure
      (.loop ⟨hitem.trans hvars.1, hindex.trans hvars.2, hc⟩ hinner)

theorem returns_resource (spec : ResourceSpec) (symbol : SymbolId) :
    Returns (resource spec symbol) (ResourceDecl.Written spec symbol) := by
  unfold resource
  -- `declare` is what follows once the type is read
  extract_lets declare
  have hdeclare : ∀ reference, ResourceType.parse spec.typeText = .ok reference →
      Returns (declare reference) (ResourceDecl.Written spec symbol) := by
    intro reference hreference
    refine .after fun start => .after fun _ => ?_
    refine (returns_ident spec.name).bind fun name hname => .after fun _ => ?_
    extract_lets finish
    have hfinish : ∀ u, Returns (finish u) (ResourceDecl.Written spec symbol) := by
      intro u
      refine .after fun _ => ?_
      refine (returns_body spec.loop spec.condition spec.properties).bind fun body hbody => ?_
      refine .after fun span => .after fun _ => .pure ?_
      exact ⟨rfl, hname, rfl, rfl, ⟨reference, hreference, rfl⟩, hbody⟩
    split
    · exact .after hfinish
    · exact hfinish ()
  split
  next => exact Returns.throw_bind
  next reference hreference =>
    rw [pure_bind]
    exact hdeclare reference hreference

theorem returns_module (spec : ModuleSpec) (symbol : SymbolId) :
    Returns (module spec symbol) (ModuleDecl.Written spec symbol) := by
  refine .after fun start => .after fun _ => ?_
  refine (returns_ident spec.name).bind fun name hname => .after fun _ => ?_
  refine (returns_body spec.loop spec.condition spec.properties).bind fun body hbody => ?_
  exact .after fun span => .after fun _ => .pure ⟨rfl, hname, rfl, rfl, hbody⟩

/-! ## Indices -/

theorem quiet_write (text : String) : Quiet Draft.next (write text) := .modify fun _ => rfl

theorem quiet_newline : Quiet Draft.next newline := .modify fun _ => rfl

theorem quiet_position : Quiet Draft.next position := .read Draft.position

theorem quiet_spanFrom (start : Position) : Quiet Draft.next (spanFrom start) :=
  quiet_position.bind fun _ => .pure _

theorem quiet_ident (name : String) : Quiet Draft.next (ident name) :=
  quiet_position.bind fun _ => (quiet_write name).bind fun _ =>
    (quiet_spanFrom _).bind fun _ => .pure _

theorem quiet_loopVariables (loop : LoopSpec) : Quiet Draft.next (loopVariables loop) := by
  unfold loopVariables
  cases loop.index with
  | none => exact (quiet_ident _).bind fun _ => .pure _
  | some name =>
    refine (quiet_write _).bind fun _ => (quiet_ident _).bind fun _ => ?_
    refine (quiet_write _).bind fun _ => ?_
    exact (quiet_ident _).bind fun _ => (quiet_write _).bind fun _ => .pure _

theorem draws_freshIndex : Draws Draft.next freshIndex fun i => [i] := .modifyGet fun _ => rfl

theorem draws_node (start : Position) : Draws Draft.next (node start) fun n => [n.index] := by
  intro before
  refine (quiet_spanFrom start before).bind fun span => ?_
  exact (draws_freshIndex before).bind fun i => .pure rfl

theorem draws_localVar (v : Ident) : Draws Draft.next (localVar v) fun x => [x.node.index] := by
  intro before
  exact (draws_freshIndex before).bind fun i => .pure rfl

/-- The tree that was read keeps its order, and the counter moves past all of its indices. -/
theorem draws_expr (property : Option String) (text : String) :
    Draws Draft.next (expr property text) Expr.indices := by
  intro before first
  refine (quiet_position before first).bind fun start => ?_
  refine (quiet_write text before first).bind fun _ => ?_
  split
  next => exact Ensures.throw
  next reading h =>
    have drawn : Ensures (fun d => Ascending first d.next before)
        (modifyGet fun d => (d.next, { d with next := d.next + reading.indices }) : Writer Nat)
        fun n d => Ascending first d.next (before ++ reading.expr.indices.map (n + ·)) :=
      Ensures.modifyGet fun d hd => hd.append ((Reading.ascending_indices h).map_add d.next)
    refine drawn.bind fun n => Ensures.pure fun d hd => ?_
    show Ascending first d.next (before ++ (reading.expr.place start n).indices)
    rwa [Expr.place, Expr.indices_map]

theorem draws_property (key text : String) :
    Draws Draft.next (property key text) (·.value.indices) := by
  intro before
  refine (quiet_write _ before).bind fun _ => (quiet_position before).bind fun start => ?_
  refine (quiet_write _ before).bind fun _ => (quiet_write _ before).bind fun _ => ?_
  refine (draws_expr _ text before).bind fun value => (quiet_spanFrom start _).bind fun span => ?_
  exact (quiet_newline _).bind fun _ => .pure rfl

theorem draws_object (properties : Std.TreeMap String String) :
    Draws Draft.next (object properties) Expr.indices := by
  intro before
  refine (quiet_position before).bind fun start => (quiet_write _ before).bind fun _ => ?_
  refine (quiet_newline before).bind fun _ => ?_
  refine (Draws.mapM (fun pair _ => draws_property pair.1 pair.2) before).bind fun ps => ?_
  refine (quiet_write _ _).bind fun _ => (draws_node start _).bind fun n => .pure ?_
  simp [Expr.indices, Expr.indicesIn_eq_flatMap, List.flatMap_map]

theorem draws_conditional (condition : Option String) (properties : Std.TreeMap String String) :
    Draws Draft.next (conditional condition properties) Body.indices := by
  intro before
  cases condition with
  | none => exact (draws_object properties before).bind fun value => .pure rfl
  | some text =>
    refine (quiet_position before).bind fun start => (quiet_write _ before).bind fun _ => ?_
    refine (draws_expr _ text before).bind fun condition => (quiet_write _ _).bind fun _ => ?_
    refine (draws_object properties _).bind fun value => ?_
    refine (quiet_spanFrom start _).bind fun span => ?_
    exact .pure (List.append_assoc ..)

theorem draws_body (loop : Option LoopSpec) (condition : Option String)
    (properties : Std.TreeMap String String) :
    Draws Draft.next (body loop condition properties) Body.indices := by
  intro before
  cases loop with
  | none => exact draws_conditional condition properties before
  | some loop =>
    refine (quiet_position before).bind fun start => (quiet_write _ before).bind fun _ => ?_
    refine (quiet_loopVariables loop before).bind fun vars => ?_
    refine (quiet_write _ before).bind fun _ => ?_
    refine (draws_expr _ loop.collection before).bind fun collection => ?_
    refine (quiet_write _ _).bind fun _ => (draws_localVar vars.1 _).bind fun item => ?_
    refine (Draws.mapM_option draws_localVar vars.2 _).bind fun index => ?_
    refine (draws_conditional condition properties _).bind fun inner => ?_
    refine (quiet_write _ _).bind fun _ => (quiet_spanFrom start _).bind fun span => .pure ?_
    simp [Body.indices, LocalVar.indices, List.map_eq_flatMap]

theorem draws_resource (spec : ResourceSpec) (symbol : SymbolId) :
    Draws Draft.next (resource spec symbol) (·.body.indices) := by
  intro before
  unfold resource
  extract_lets declare
  have hdeclare : ∀ reference, Numbers Draft.next before (declare reference) fun r =>
      before ++ r.body.indices := by
    intro reference
    refine (quiet_position before).bind fun start => (quiet_write _ before).bind fun _ => ?_
    refine (quiet_ident spec.name before).bind fun name => (quiet_write _ before).bind fun _ => ?_
    extract_lets finish
    have hfinish : ∀ u, Numbers Draft.next before (finish u) fun r => before ++ r.body.indices := by
      intro u
      refine (quiet_write _ before).bind fun _ => (draws_body _ _ _ before).bind fun body => ?_
      exact (quiet_spanFrom start _).bind fun span => (quiet_newline _).bind fun _ => .pure rfl
    split
    · exact (quiet_write _ before).bind hfinish
    · exact hfinish ()
  split
  next => exact Numbers.throw.bind hdeclare
  next reference _ =>
    rw [pure_bind]
    exact hdeclare reference

theorem draws_module (spec : ModuleSpec) (symbol : SymbolId) :
    Draws Draft.next (module spec symbol) (·.body.indices) := by
  intro before
  refine (quiet_position before).bind fun start => (quiet_write _ before).bind fun _ => ?_
  refine (quiet_ident spec.name before).bind fun name => (quiet_write _ before).bind fun _ => ?_
  refine (draws_body _ _ _ before).bind fun body => (quiet_spanFrom start _).bind fun span => ?_
  exact (quiet_newline _).bind fun _ => .pure rfl

end Writer

/-! ## Whole programs -/

theorem firstRepeated?_eq_none_iff {before names : List String} :
    firstRepeated? before names = none ↔ names.Nodup ∧ ∀ name ∈ names, name ∉ before := by
  induction names generalizing before with
  | nil => simp [firstRepeated?]
  | cons name names ih =>
    rw [firstRepeated?, List.nodup_cons, List.forall_mem_cons]
    split
    next hmem => simp [hmem]
    next hfresh =>
      rw [ih]
      simp only [List.mem_cons, not_or]
      constructor
      · rintro ⟨nodup, apart⟩
        have hnew : name ∉ names := fun hname => (apart name hname).1 rfl
        exact ⟨⟨hnew, nodup⟩, hfresh, fun other hother => (apart other hother).2⟩
      · rintro ⟨⟨hnew, nodup⟩, -, apart⟩
        refine ⟨nodup, fun other hother => ⟨?_, apart other hother⟩⟩
        rintro rfl
        exact hnew hother

def Program.bodies (p : Program) : List Body :=
  p.resources.map (·.body) ++ p.modules.map (·.body)

/-- The program declares what the blueprint does, and its indices rise. -/
structure Program.Written (b : Blueprint) (p : Program) : Prop where
  resources : List.Forall₂ (fun pair r => r.Written pair.1 pair.2) b.numberedResources p.resources
  modules : List.Forall₂ (fun pair d => d.Written pair.1 pair.2) b.numberedModules p.modules
  ascending : Ascending 0 p.indices (p.bodies.flatMap Body.indices)

/-- What the parts of a successful build are. -/
structure Build.Of (b : Blueprint) (built : Build) : Prop where
  distinct : firstRepeated? [] (b.globals.map (·.1)) = none
  written : b.written = .ok (built.model.program, built.source.contents, built.extents)
  ancestors : b.ancestry = .ok built.model.ancestors
  resourceScopes : b.resourceScopes = .ok built.model.resourceScopes
  moduleScopes : b.moduleScopes = .ok built.model.moduleScopes
  symbols : b.symbols.bindAll b.names built.model.program.bodies = .ok built.model.symbols

namespace Blueprint

variable {α : Type} {b : Blueprint} {built : Build}

theorem ensures_declaration {pre : Draft → Prop} {post : α → Draft → Prop} {write : Writer α}
    (h : Ensures pre write post) (name : String) (context : DeclarationError → BuildError) :
    Ensures pre (declaration name write context) fun r d => post r.1 d := by
  intro d hd r d' run
  change declaration name write context d = .ok (r, d') at run
  unfold declaration at run
  split at run
  next => cases run
  next value _ hr =>
    cases run
    exact h d hd value d' hr

/-- The declarations of one sort, written one after the other from a draft with no other trees. -/
theorem ensures_declarations {σ : Type} {Written : σ → SymbolId → α → Prop} {body : α → Body}
    {write : σ → SymbolId → Writer α} (name : σ → String)
    (context : σ → DeclarationError → BuildError)
    (hreturns : ∀ spec symbol, Returns (write spec symbol) (Written spec symbol))
    (hdraws : ∀ spec symbol, Draws Draft.next (write spec symbol) fun r => (body r).indices)
    {specs : List (σ × SymbolId)} {d d' : Draft} {rs : List (α × Extent)} {before : List Nat}
    (hd : Ascending 0 d.next before)
    (run : (specs.mapM fun (spec, symbol) =>
      declaration (name spec) (write spec symbol) (context spec)).run d = .ok (rs, d')) :
    List.Forall₂ (fun pair r => Written pair.1 pair.2 r) specs (rs.map (·.1)) ∧
      Ascending 0 d'.next (before ++ (rs.map (·.1)).flatMap fun r => (body r).indices) := by
  constructor
  · have step : ∀ pair ∈ specs, Returns (declaration (name pair.1) (write pair.1 pair.2)
        (context pair.1)) fun r => Written pair.1 pair.2 r.1 :=
      fun pair _ => ensures_declaration (hreturns pair.1 pair.2) _ _
    have h := Returns.forall₂_mapM specs step d trivial rs d' run
    rwa [List.forall₂_map_right_iff]
  · have step : ∀ pair ∈ specs, Draws Draft.next (declaration (name pair.1) (write pair.1 pair.2)
        (context pair.1)) fun r => (body r.1).indices :=
      fun pair _ before first => ensures_declaration (hdraws pair.1 pair.2 before first) _ _
    have h := Draws.mapM step before 0 d hd rs d' run
    rwa [List.flatMap_map]

theorem written_of_written {program : Program} {contents : String} {extents : List Extent}
    (h : b.written = .ok (program, contents, extents)) : program.Written b := by
  unfold written at h
  obtain ⟨⟨resources, d⟩, hresources, h⟩ := bind_eq_ok_iff.mp h
  obtain ⟨⟨modules, d'⟩, hmodules, h⟩ := bind_eq_ok_iff.mp h
  cases h
  have start : Ascending 0 b.header.next [] := Nat.zero_le _
  obtain ⟨rwritten, rascending⟩ :=
    ensures_declarations ResourceSpec.name (fun spec => BuildError.resource spec.name)
      Writer.returns_resource Writer.draws_resource start hresources
  obtain ⟨mwritten, mascending⟩ :=
    ensures_declarations ModuleSpec.name (fun spec => BuildError.module spec.name)
      Writer.returns_module Writer.draws_module rascending hmodules
  refine ⟨rwritten, mwritten, ?_⟩
  simpa [Program.bodies, List.flatMap_map] using mascending

theorem of_build (h : b.build = .ok built) : built.Of b := by
  unfold build at h
  dsimp only at h
  split at h
  next => cases h
  next distinct =>
    obtain ⟨⟨program, contents, extents⟩, written, h⟩ := bind_eq_ok_iff.mp h
    obtain ⟨ancestors, hancestors, h⟩ := bind_eq_ok_iff.mp h
    obtain ⟨resourceScopes, hresourceScopes, h⟩ := bind_eq_ok_iff.mp h
    obtain ⟨moduleScopes, hmoduleScopes, h⟩ := bind_eq_ok_iff.mp h
    obtain ⟨symbols, hsymbols, h⟩ := bind_eq_ok_iff.mp h
    cases h
    refine ⟨Option.eq_none_iff_forall_ne_some.mpr distinct, written, hancestors, hresourceScopes,
      hmoduleScopes, ?_⟩
    cases hbind : b.symbols.bindAll b.names program.bodies with
    | error e =>
      rw [← Program.bodies, hbind] at hsymbols
      cases hsymbols
    | ok table =>
      rw [← Program.bodies, hbind] at hsymbols
      cases hsymbols
      rfl

/-- Whether the blueprint describes a program, and one that passes the test. -/
def buildsWith (b : Blueprint) (test : Build → Bool) : Bool :=
  match b.build with
  | .ok built => test built
  | .error _ => false

theorem buildsWith_iff {b : Blueprint} {test : Build → Bool} :
    b.buildsWith test = true ↔ ∃ built, b.build = .ok built ∧ test built = true := by
  unfold buildsWith
  split <;> simp_all

theorem map_fst_numberedResources (b : Blueprint) :
    b.numberedResources.map (·.1) = b.resources := by
  rw [numberedResources, List.map_map]
  exact List.zipIdx_map_fst _ _

theorem map_fst_numberedModules (b : Blueprint) : b.numberedModules.map (·.1) = b.modules := by
  rw [numberedModules, List.map_map]
  exact List.zipIdx_map_fst _ _

theorem fst_mem_resources {pair : ResourceSpec × SymbolId} (h : pair ∈ b.numberedResources) :
    pair.1 ∈ b.resources := by
  rw [← b.map_fst_numberedResources]
  exact List.mem_map_of_mem h

theorem fst_mem_modules {pair : ModuleSpec × SymbolId} (h : pair ∈ b.numberedModules) :
    pair.1 ∈ b.modules := by
  rw [← b.map_fst_numberedModules]
  exact List.mem_map_of_mem h

end Blueprint

theorem exists_of_forall₂ {α β : Type} {R : α → β → Prop} {xs : List α} {ys : List β}
    (h : List.Forall₂ R xs ys) {y : β} (hy : y ∈ ys) : ∃ x, R x y := by
  induction h with
  | nil => cases hy
  | cons hxy _ ih =>
    rcases List.mem_cons.mp hy with rfl | hy
    · exact ⟨_, hxy⟩
    · exact ih hy

namespace Program.Written

variable {b : Blueprint} {p : Program}

theorem resources_forall₂ (h : p.Written b) :
    List.Forall₂ (fun spec r => ∃ symbol, r.Written spec symbol) b.resources p.resources := by
  rw [← b.map_fst_numberedResources, List.forall₂_map_left_iff]
  exact h.resources.imp fun pair r hr => ⟨pair.2, hr⟩

theorem modules_forall₂ (h : p.Written b) :
    List.Forall₂ (fun spec d => ∃ symbol, d.Written spec symbol) b.modules p.modules := by
  rw [← b.map_fst_numberedModules, List.forall₂_map_left_iff]
  exact h.modules.imp fun pair d hd => ⟨pair.2, hd⟩

theorem body_written (h : p.Written b) {body : Body} (hbody : body ∈ p.bodies) :
    ∃ condition properties loop, body.Written condition properties loop := by
  rcases List.mem_append.mp hbody with hbody | hbody
  · obtain ⟨r, hr, rfl⟩ := List.mem_map.mp hbody
    obtain ⟨spec, symbol, hspec⟩ := exists_of_forall₂ h.resources_forall₂ hr
    exact ⟨_, _, _, hspec.body⟩
  · obtain ⟨d, hd, rfl⟩ := List.mem_map.mp hbody
    obtain ⟨spec, symbol, hspec⟩ := exists_of_forall₂ h.modules_forall₂ hd
    exact ⟨_, _, _, hspec.body⟩

end Program.Written

end Preflight
