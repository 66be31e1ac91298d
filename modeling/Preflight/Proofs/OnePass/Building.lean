import Preflight.OnePass.Building
import Preflight.Proofs.Blueprint.Acceptance

/-! # Building in one pass, step by step

A builder that reads and binds while it writes comes to what the writer and the binder come to one
after the other. Between two declarations no local name is in sight. -/

namespace Preflight
set_option autoImplicit false

namespace Writer

/-- What is inside of a loop, as it is written. -/
def scope (item : Ident) (index : Option Ident) (condition : Option String)
    (properties : Std.TreeMap String String) :
    Writer (LocalVar × Option LocalVar × Body) := do
  let item ← localVar item
  let index ← index.mapM localVar
  let inner ← conditional condition properties
  return (item, index, inner)

theorem scope_bind {α : Type} {item : Ident} {index : Option Ident} {condition : Option String}
    {properties : Std.TreeMap String String} (k : LocalVar → Option LocalVar → Body → Writer α) :
    (do
      let item ← localVar item
      let index ← index.mapM localVar
      let inner ← conditional condition properties
      k item index inner) =
    scope item index condition properties >>= fun inside => k inside.1 inside.2.1 inside.2.2 := by
  simp only [scope, bind_assoc, pure_bind]

end Writer

namespace OnePass

variable {ε α β γ : Type} {b b' b'' : BinderState}

/-! ## Following the writer -/

/-- From a page on which the binder holds `b`, the builder `q` does what the writer `w` does. If it
succeeds, `post` tells what the binder holds then. -/
def Tracks (b : BinderState) (w : StateT Draft (Except ε) α)
    (q : StateT Page (Except (Fault ε)) α) (post : α → BinderState → Prop) : Prop :=
  ∀ page : Page, page.binder = b →
    match w.run page.draft with
    | .error cause => q.run page = .error (.declared cause)
    | .ok (a, draft) => ∃ page', q.run page = .ok (a, page') ∧ page'.draft = draft ∧
        page'.binder.Reachable ∧ post a page'.binder

namespace Tracks

variable {w : StateT Draft (Except ε) α} {q : StateT Page (Except (Fault ε)) α}
  {k : α → StateT Draft (Except ε) β} {l : α → StateT Page (Except (Fault ε)) β}
  {post mid : α → BinderState → Prop} {final : β → BinderState → Prop}

theorem pure {a : α} (h : b.Reachable) (hpost : post a b) :
    Tracks (ε := ε) b (pure a) (pure a) post := by
  rintro page rfl
  exact ⟨page, rfl, rfl, h, hpost⟩

theorem bind (h : Tracks b w q mid)
    (hk : ∀ a b', b'.Reachable → mid a b' → Tracks b' (k a) (l a) final) :
    Tracks b (w >>= k) (q >>= l) final := by
  intro page hb
  have hfirst := h page hb
  cases hw : w.run page.draft with
  | error cause =>
    rw [hw] at hfirst
    rw [run_bind_of_error hw, run_bind_of_error hfirst]
  | ok result =>
    rw [hw] at hfirst
    obtain ⟨page', hq, hdraft, hreach, hmid⟩ := hfirst
    have hnext := hk result.1 page'.binder hreach hmid page' rfl
    rw [run_bind_of_ok hw, run_bind_of_ok hq, ← hdraft]
    exact hnext

end Tracks

theorem Tracks.get_bind {w : Writer α} {l : Page → Builder α} {post : α → BinderState → Prop}
    (h : ∀ page : Page, page.binder = b → Tracks b w (l page) post) :
    Tracks b w (get >>= l) post :=
  fun page hb => h page hb page hb

/-- The stack of names is cut back once everything else is done. -/
theorem Tracks.truncate {a : α} {height : Nat} {post : α → BinderState → Prop} (h : b.Reachable)
    (hpost : post a (b.truncate height)) :
    Tracks b (Pure.pure a : Writer α) (do
      modify fun page => { page with binder := page.binder.truncate height }
      return a : Builder α) post := by
  rintro page rfl
  exact ⟨_, rfl, rfl, h.truncate height, hpost⟩

/-- A step of the writer that succeeds and draws no index. -/
def Still (w : Writer α) : Prop := ∀ d, ∃ a d', w.run d = .ok (a, d') ∧ d'.next = d.next

theorem Still.tracks {w : Writer α} (hw : Still w) (h : b.Reachable) :
    Tracks b w (Builder.write w) fun _ b' => b' = b := by
  rintro page rfl
  obtain ⟨a, d, hrun, hnext⟩ := hw page.draft
  have hbinder : { page.binder with next := d.next } = page.binder := by
    rw [hnext]
    rfl
  have hwrite : (Builder.write w).run page =
      .ok (a, { text := d.text, position := d.position, binder := page.binder }) := by
    rw [← hbinder]
    change Builder.write w page = _
    rw [Builder.write, hrun]
  have hdraft : d = { text := d.text, position := d.position, next := page.binder.next } := by
    rw [← hbinder]
  rw [hrun, hwrite]
  exact ⟨_, rfl, hdraft.symm, h, rfl⟩

/-- The writer takes a step that draws no index. -/
theorem Tracks.after {w : Writer α} {k : α → Writer β} {l : α → Builder β}
    {final : β → BinderState → Prop} (hw : Still w) (h : b.Reachable)
    (hk : ∀ a, Tracks b (k a) (l a) final) : Tracks b (w >>= k) (Builder.write w >>= l) final := by
  apply (hw.tracks h).bind
  rintro a b' - rfl
  exact hk a

theorem still_write (text : String) : Still (Writer.write text) := fun _ => ⟨_, _, rfl, rfl⟩

theorem still_newline : Still Writer.newline := fun _ => ⟨_, _, rfl, rfl⟩

theorem still_position : Still Writer.position := fun _ => ⟨_, _, rfl, rfl⟩

theorem still_spanFrom (start : Position) : Still (Writer.spanFrom start) :=
  fun _ => ⟨_, _, rfl, rfl⟩

theorem still_ident (name : String) : Still (Writer.ident name) := fun _ => ⟨_, _, rfl, rfl⟩

theorem still_loopVariables (loop : LoopSpec) : Still (Writer.loopVariables loop) := by
  intro d
  unfold Writer.loopVariables
  cases loop.index with
  | none => exact ⟨_, _, rfl, rfl⟩
  | some index => exact ⟨_, _, rfl, rfl⟩

theorem tracks_node (h : b.Reachable) (start : Position) :
    Tracks b (Writer.node start) (Builder.write (Writer.node start)) fun _ => Effect quietly b := by
  rintro page rfl
  exact ⟨_, rfl, rfl, h.freshIndex, rfl, rfl, rfl⟩

/-! ## Expressions -/

/-- The binder binds what it would bind in the finished tree. -/
theorem tracks_expr (h : b.Reachable) (property : Option String) (text : String) :
    Tracks b (Writer.expr property text) (Builder.expr property text) fun e =>
      Effect (fun names => Binder.expr names e) b := by
  apply Tracks.after still_position h
  intro start
  apply Tracks.after (still_write text) h
  intro _
  rintro page rfl
  cases hparse : Reading.parse text with
  | error cause =>
    obtain ⟨s, hread, -⟩ := exists_read text start h.closed (Nat.le_refl (nesting text.toList))
    rw [hparse] at hread
    simp only [StateT.run_bind, StateT.run_get, pure_bind, hread, answer]
    rfl
  | ok reading =>
    obtain ⟨s, hread, hnext, heffect⟩ :=
      exists_read_bound start h.closed (Nat.le_refl (nesting text.toList)) hparse
    have hreach := h.read text start (Nat.le_refl (nesting text.toList)) hread
    simp only [StateT.run_bind, StateT.run_get, pure_bind, hread]
    refine ⟨{ page with binder := s.binder }, rfl, ?_, hreach, heffect⟩
    rw [Page.draft, hnext]
    rfl

theorem tracks_localVar (h : b.Reachable) (v : Ident) :
    Tracks b (Writer.localVar v) (Builder.localVar v) fun x => b.Brought [x] := by
  rintro page rfl
  obtain ⟨b', hstep, -, hnext, -, brought⟩ := exists_brought h.closed ⟨v.name, v.span⟩
  have hrun : (Builder.localVar v).run page =
      .ok (⟨⟨v.span, page.binder.next⟩, v.name⟩, { page with binder := b' }) := by
    unfold Builder.localVar
    simp only [StateT.run_bind, StateT.run_get, pure_bind, hstep]
    rfl
  refine ⟨_, hrun, ?_, h.declareLocal _ hstep, brought⟩
  rw [Page.draft, hnext]
  rfl

theorem tracks_index (h : b.Reachable) (v : Option Ident) :
    Tracks b (v.mapM Writer.localVar) (v.mapM Builder.localVar) fun x => b.Brought x.toList := by
  cases v with
  | none => exact .pure h .nil
  | some v =>
    rw [Option.mapM_some, Option.mapM_some, map_eq_pure_bind, map_eq_pure_bind]
    apply (tracks_localVar h v).bind
    intro x b' h' brought
    exact .pure h' brought

/-- Each of the steps binds what it returns. -/
theorem Tracks.mapM {w : α → StateT Draft (Except ε) β} {q : α → StateT Page (Except (Fault ε)) β}
    {m : β → Names → Binder Unit}
    (step : ∀ x {b : BinderState}, b.Reachable → Tracks b (w x) (q x) fun y => Effect (m y) b)
    (xs : List α) (h : b.Reachable) :
    Tracks b (xs.mapM w) (xs.mapM q) fun ys =>
      Effect (fun names => ys.forM fun y => m y names) b := by
  induction xs generalizing b with
  | nil => exact .pure h ⟨rfl, rfl, rfl⟩
  | cons x xs ih =>
    rw [List.mapM_cons, List.mapM_cons]
    apply (step x h).bind
    intro y b' h' first
    apply (ih h').bind
    intro ys b'' h'' rest
    exact .pure h'' (first.trans rest)

/-! ## Declarations -/

theorem tracks_property (h : b.Reachable) (key text : String) :
    Tracks b (Writer.property key text) (Builder.property key text) fun p =>
      Effect (fun names => Binder.expr names p.value) b := by
  apply Tracks.after (still_write _) h
  intro _
  apply Tracks.after still_position h
  intro start
  apply Tracks.after (still_write key) h
  intro _
  apply Tracks.after (still_write _) h
  intro _
  apply (tracks_expr h (some key) text).bind
  intro value b' h' bound
  apply Tracks.after (still_spanFrom start) h'
  intro span
  apply Tracks.after still_newline h'
  intro _
  exact .pure h' bound

theorem tracks_object (h : b.Reachable) (properties : Std.TreeMap String String) :
    Tracks b (Writer.object properties) (Builder.object properties) fun e =>
      Effect (fun names => Binder.expr names e) b := by
  apply Tracks.after still_position h
  intro start
  apply Tracks.after (still_write _) h
  intro _
  apply Tracks.after still_newline h
  intro _
  apply (Tracks.mapM (fun pair _ h => tracks_property h pair.1 pair.2) properties.toList h).bind
  intro ps b' h' bound
  apply Tracks.after (still_write _) h'
  intro _
  apply (tracks_node h' start).bind
  intro n b'' h'' here
  have hobject (names : Names) : Binder.expr names (.object n ps) =
      ps.forM fun p => Binder.expr names p.value := by
    rw [Binder.expr, Binder.properties_eq_forM]
    exact List.forM_map
  apply Tracks.pure h''
  simp only [hobject]
  exact bound.before here

theorem tracks_conditional (h : b.Reachable) (condition : Option String)
    (properties : Std.TreeMap String String) :
    Tracks b (Writer.conditional condition properties) (Builder.conditional condition properties)
      fun body => Effect (fun names => Binder.body names body) b := by
  unfold Writer.conditional Builder.conditional
  cases condition with
  | none =>
    apply (tracks_object h properties).bind
    intro value b' h' bound
    exact .pure h' bound
  | some condition =>
    apply Tracks.after still_position h
    intro start
    apply Tracks.after (still_write _) h
    intro _
    apply (tracks_expr h none condition).bind
    intro condition b' h' first
    apply Tracks.after (still_write _) h'
    intro _
    apply (tracks_object h' properties).bind
    intro value b'' h'' rest
    apply Tracks.after (still_spanFrom start) h''
    intro span
    exact .pure h'' (first.trans rest)

/-- The variables are in sight for what is inside of the loop, and are not afterwards. -/
theorem tracks_scope (h : b.Reachable) (item : Ident) (index : Option Ident)
    (condition : Option String) (properties : Std.TreeMap String String) :
    Tracks b (Writer.scope item index condition properties)
      (Builder.scope item index condition properties) fun scope =>
        Effect (fun names => do
          let inner ← Binder.declareLocals (scope.1 :: scope.2.1.toList) names
          Binder.body inner scope.2.2) b := by
  apply Tracks.get_bind
  rintro page rfl
  apply (tracks_localVar h item).bind
  intro item b₁ h₁ first
  apply (tracks_index h₁ index).bind
  intro index b₂ h₂ second
  apply (tracks_conditional h₂ condition properties).bind
  intro inner b₃ h₃ bound
  exact .truncate h₃ ((first.append second).truncated bound)

theorem tracks_body (h : b.Reachable) (loop : Option LoopSpec) (condition : Option String)
    (properties : Std.TreeMap String String) :
    Tracks b (Writer.body loop condition properties) (Builder.body loop condition properties)
      fun body => Effect (fun names => Binder.body names body) b := by
  cases loop with
  | none => exact tracks_conditional h condition properties
  | some loop =>
    unfold Writer.body Builder.body
    apply Tracks.after still_position h
    intro start
    apply Tracks.after (still_write _) h
    intro _
    apply Tracks.after (still_loopVariables loop) h
    intro vars
    apply Tracks.after (still_write _) h
    intro _
    apply (tracks_expr h none loop.collection).bind
    intro collection b' h' outside
    apply Tracks.after (still_write _) h'
    intro _
    rw [Writer.scope_bind]
    apply (tracks_scope h' vars.1 vars.2 condition properties).bind
    rintro ⟨item, index, inner⟩ b'' h'' inside
    apply Tracks.after (still_write _) h''
    intro _
    apply Tracks.after (still_spanFrom start) h''
    intro span
    exact .pure h'' (outside.trans inside)

theorem tracks_resource (h : b.Reachable) (spec : ResourceSpec) (symbol : SymbolId) :
    Tracks b (Writer.resource spec symbol) (Builder.resource spec symbol) fun r =>
      Effect (fun names => Binder.body names r.body) b := by
  unfold Writer.resource Builder.resource
  -- what follows once the type is read
  extract_lets declare declare'
  have hdeclare : ∀ reference, Tracks b (declare reference) (declare' reference) fun r =>
      Effect (fun names => Binder.body names r.body) b := by
    intro reference
    apply Tracks.after still_position h
    intro start
    apply Tracks.after (still_write _) h
    intro _
    apply Tracks.after (still_ident spec.name) h
    intro name
    apply Tracks.after (still_write _) h
    intro _
    -- what follows the word for a resource that exists already
    extract_lets finish finish'
    have hfinish : ∀ u, Tracks b (finish u) (finish' u) fun r =>
        Effect (fun names => Binder.body names r.body) b := by
      intro u
      apply Tracks.after (still_write _) h
      intro _
      apply (tracks_body h spec.loop spec.condition spec.properties).bind
      intro body b' h' bound
      apply Tracks.after (still_spanFrom start) h'
      intro span
      apply Tracks.after still_newline h'
      intro _
      exact .pure h' bound
    split
    · exact Tracks.after (still_write _) h hfinish
    · exact hfinish ()
  cases ResourceType.parse spec.typeText with
  | error cause => exact fun _ _ => rfl
  | ok reference =>
    dsimp only
    rw [pure_bind, pure_bind]
    exact hdeclare reference

theorem tracks_module (h : b.Reachable) (spec : ModuleSpec) (symbol : SymbolId) :
    Tracks b (Writer.module spec symbol) (Builder.module spec symbol) fun d =>
      Effect (fun names => Binder.body names d.body) b := by
  apply Tracks.after still_position h
  intro start
  apply Tracks.after (still_write _) h
  intro _
  apply Tracks.after (still_ident spec.name) h
  intro name
  apply Tracks.after (still_write _) h
  intro _
  apply (tracks_body h spec.loop spec.condition spec.properties).bind
  intro body b' h' bound
  apply Tracks.after (still_spanFrom start) h'
  intro span
  apply Tracks.after still_newline h'
  intro _
  exact .pure h' bound

theorem tracks_declaration {w : Writer α} {q : Builder α} {post : α → BinderState → Prop}
    (h : Tracks b w q post) (name : String) (context : DeclarationError → BuildError) :
    Tracks b (Blueprint.declaration name w context) (Builder.declaration name q context)
      fun declared => post declared.1 := by
  intro page hb
  have hrun := h page hb
  cases hw : w.run page.draft with
  | error cause =>
    rw [hw] at hrun
    have hleft : Blueprint.declaration name w context page.draft = .error (context cause) := by
      rw [Blueprint.declaration, hw]
    have hright : Builder.declaration name q context page = .error (.declared (context cause)) := by
      rw [Builder.declaration, hrun]
      rfl
    rw [StateT.run, hleft]
    exact hright
  | ok result =>
    obtain ⟨value, draft⟩ := result
    rw [hw] at hrun
    obtain ⟨page', hq, rfl, hreach, hpost⟩ := hrun
    have hleft : Blueprint.declaration name w context page.draft =
        .ok ((value, ⟨name, page.position.lines + 1, page'.position.lines⟩), page'.draft) := by
      rw [Blueprint.declaration, hw]
      rfl
    have hright : Builder.declaration name q context page =
        .ok ((value, ⟨name, page.position.lines + 1, page'.position.lines⟩), page') := by
      rw [Builder.declaration, hq]
    rw [StateT.run, hleft]
    exact ⟨page', hright, rfl, hreach, hpost⟩

/-! ## Names that are in sight everywhere -/

def BinderState.withGlobals (b : BinderState) (globals : List (String × SymbolKind)) :
    BinderState :=
  globals.foldl (fun b (name, kind) => b.declareGlobal name kind) b

variable {globals : List (String × SymbolKind)}

theorem lookup_eq_none_iff {names : Names} {name : String} :
    names.lookup name = none ↔ name ∉ names.map (·.1) := by
  simp only [List.lookup_eq_none_iff, bne_iff_ne, List.mem_map, not_exists, not_and, ne_comm]

theorem run_declareGlobal (name : String) (kind : SymbolKind) (b : BinderState) :
    (declareGlobal name kind).run b =
      if name ∈ b.globals.map (·.1) then .error (.declared (.repeatedName name))
      else .ok (b.symbols.nextId, b.declareGlobal name kind) := by
  change declareGlobal name kind b = _
  rw [declareGlobal]
  cases hlookup : b.globals.lookup name with
  | none => rw [if_neg (lookup_eq_none_iff.mp hlookup)]
  | some id =>
    have taken : name ∈ b.globals.map (·.1) := by
      by_contra free
      rw [lookup_eq_none_iff.mpr free] at hlookup
      cases hlookup
    rw [if_pos taken]

theorem size_declareGlobal (name : String) (kind : SymbolKind) (b : BinderState) :
    (b.declareGlobal name kind).symbols.declared.size = b.symbols.declared.size + 1 :=
  Array.size_push _

/-- The names get the next symbols, one after the other, unless one of them is taken. -/
theorem run_declareGlobals (globals : List (String × SymbolKind)) (b : BinderState) :
    (globals.mapM fun (name, kind) => declareGlobal name kind).run b =
      match firstRepeated? (b.globals.map (·.1)) (globals.map (·.1)) with
      | some name => .error (.declared (.repeatedName name))
      | none => .ok ((List.range' b.symbols.declared.size globals.length).map SymbolId.mk,
          b.withGlobals globals) := by
  induction globals generalizing b with
  | nil => rfl
  | cons global globals ih =>
    obtain ⟨name, kind⟩ := global
    have hstep := run_declareGlobal name kind b
    rw [List.mapM_cons, List.map_cons, firstRepeated?]
    by_cases taken : name ∈ b.globals.map (·.1)
    · rw [if_pos taken] at hstep ⊢
      exact run_bind_of_error hstep
    · rw [if_neg taken] at hstep ⊢
      have hnames : (b.declareGlobal name kind).globals.map (·.1) =
          name :: b.globals.map (·.1) := rfl
      have hrest := ih (b.declareGlobal name kind)
      rw [size_declareGlobal, hnames] at hrest
      rw [run_bind_of_ok hstep, StateT.run_bind, hrest]
      cases firstRepeated? (name :: b.globals.map (·.1)) (globals.map (·.1)) with
      | some name => rfl
      | none => rfl

theorem BinderState.Reachable.withGlobals (h : b.Reachable)
    (hnew : firstRepeated? (b.globals.map (·.1)) (globals.map (·.1)) = none) :
    (b.withGlobals globals).Reachable := by
  induction globals generalizing b with
  | nil => exact h
  | cons global globals ih =>
    rw [List.map_cons, firstRepeated?] at hnew
    split at hnew
    next => cases hnew
    next free =>
      exact ih (h.declareGlobal global.1 global.2 (lookup_eq_none_iff.mpr free)) hnew

theorem symbols_withGlobals (b : BinderState) : (b.withGlobals globals).symbols =
    globals.foldl (fun table (name, kind) => table.declare name kind) b.symbols := by
  induction globals generalizing b with
  | nil => rfl
  | cons global globals ih => exact ih _

theorem names_withGlobals (b : BinderState) : (b.withGlobals globals).globals =
    ((globals.zipIdx b.symbols.declared.size).map fun ((name, _), number) =>
      (name, ⟨number⟩)).reverse ++ b.globals := by
  induction globals generalizing b with
  | nil => rfl
  | cons global globals ih =>
    have hrest := ih (b.declareGlobal global.1 global.2)
    rw [size_declareGlobal] at hrest
    rw [List.zipIdx_cons, List.map_cons, List.reverse_cons, List.append_assoc]
    exact hrest

theorem withGlobals_locals (b : BinderState) : (b.withGlobals globals).locals = b.locals := by
  induction globals generalizing b with
  | nil => rfl
  | cons global globals ih => exact ih _

theorem withGlobals_next (b : BinderState) : (b.withGlobals globals).next = b.next := by
  induction globals generalizing b with
  | nil => rfl
  | cons global globals ih => exact ih _

theorem lookup_reverse {names : Names} (h : (names.map (·.1)).Nodup) :
    Binder.SameNames names.reverse names := by
  induction names with
  | nil => exact fun _ => rfl
  | cons p names ih =>
    intro x
    obtain ⟨hp, hnames⟩ := List.nodup_cons.mp h
    rw [List.reverse_cons, List.lookup_append, ih hnames x, List.lookup_cons, List.lookup_cons]
    cases hx : x == p.1 with
    | true =>
      rw [lookup_eq_none_iff.mpr (beq_iff_eq.mp hx ▸ hp)]
      rfl
    | false => exact Option.or_none

/-- Each member gets the number of its place. -/
theorem zip_range' {xs : List α} {start n : Nat} (h : xs.length ≤ n) :
    xs.zip ((List.range' start n).map SymbolId.mk) =
      (xs.zipIdx start).map fun (x, number) => (x, ⟨number⟩) := by
  induction xs generalizing start n with
  | nil => rfl
  | cons x xs ih =>
    obtain ⟨n, rfl⟩ : ∃ k, n = k + 1 := Nat.exists_eq_add_one.mpr (Nat.zero_lt_of_lt h)
    rw [List.range'_succ, List.map_cons, List.zip_cons_cons, List.zipIdx_cons, List.map_cons,
      ih (Nat.le_of_succ_le_succ h)]

/-! ## Programs -/

variable {blueprint : Blueprint}

theorem next_header (blueprint : Blueprint) : blueprint.header.next = 0 := by
  have keep (lines : List String) (d : Draft) :
      (lines.foldl (fun draft text => draft.line text) d).next = d.next := by
    induction lines generalizing d with
    | nil => rfl
    | cons text lines ih => exact ih _
  exact keep _ {}

/-- The declarations as they are written. -/
def writing (b : Blueprint) : StateT Draft (Except BuildError) Declarations := do
  let resources ← b.numberedResources.mapM fun (spec, symbol) =>
    Blueprint.declaration spec.name (Writer.resource spec symbol) (.resource spec.name)
  let modules ← b.numberedModules.mapM fun (spec, symbol) =>
    Blueprint.declaration spec.name (Writer.module spec symbol) (.module spec.name)
  return { resources, modules }

theorem written_eq_writing : blueprint.written = ((writing blueprint).run blueprint.header).map
    fun (declared, draft) => (declared.program draft.next, draft.text, declared.extents) := by
  unfold Blueprint.written writing
  cases hresources : StateT.run (blueprint.numberedResources.mapM fun (spec, symbol) =>
      Blueprint.declaration spec.name (Writer.resource spec symbol) (.resource spec.name))
      blueprint.header with
  | error cause =>
    rw [run_bind_of_error hresources]
    rfl
  | ok resources =>
    rw [run_bind_of_ok hresources]
    conv_lhs => dsimp only [bind, Except.bind]
    cases hmodules : StateT.run (blueprint.numberedModules.mapM fun (spec, symbol) =>
        Blueprint.declaration spec.name (Writer.module spec symbol) (.module spec.name))
        resources.2 with
    | error cause =>
      rw [run_bind_of_error hmodules]
      rfl
    | ok modules =>
      rw [run_bind_of_ok hmodules]
      rfl

/-- The declarations are built as they are written, and their bodies are bound in order. -/
theorem tracks_declarations {symbols : List SymbolId} (h : b.Reachable)
    (hresources : blueprint.resources.zip symbols = blueprint.numberedResources)
    (hmodules : blueprint.modules.zip (symbols.drop blueprint.resources.length) =
      blueprint.numberedModules) :
    Tracks b (writing blueprint) (declarations blueprint symbols) fun declared =>
      Effect (fun names => Binder.bodies names (declared.program 0).bodies) b := by
  unfold declarations
  rw [hresources, hmodules]
  apply (Tracks.mapM (fun pair _ h => tracks_declaration (tracks_resource h pair.1 pair.2) _ _)
    blueprint.numberedResources h).bind
  intro resources b' h' first
  apply (Tracks.mapM (fun pair _ h => tracks_declaration (tracks_module h pair.1 pair.2) _ _)
    blueprint.numberedModules h').bind
  intro modules b'' h'' rest
  apply Tracks.pure h''
  have hbodies (names : Names) :
      Binder.bodies names (Declarations.program ⟨resources, modules⟩ 0).bodies =
        resources.forM (fun r => Binder.body names r.1.body) >>= fun _ =>
          modules.forM fun d => Binder.body names d.1.body := by
    rw [Binder.bodies_eq_forM, Program.bodies, Declarations.program, List.map_map, List.map_map]
    refine List.forM_append.trans ?_
    rw [List.forM_map, List.forM_map]
    rfl
  simp only [hbodies]
  exact first.trans rest

/-! ## Blueprints -/

/-- What the binder holds once all names are declared. -/
def initial (b : Blueprint) : BinderState := BinderState.withGlobals {} b.globals

/-- The symbols of all names, in order. -/
def numbers (b : Blueprint) : List SymbolId :=
  (List.range' 0 b.globals.length).map SymbolId.mk

theorem run_globals (blueprint : Blueprint) :
    (blueprint.globals.mapM fun (name, kind) => declareGlobal name kind).run {} =
      match firstRepeated? [] (blueprint.globals.map (·.1)) with
      | some name => throw (.declared (.repeatedName name))
      | none => pure (numbers blueprint, initial blueprint) :=
  run_declareGlobals blueprint.globals {}

theorem draft_opening (blueprint : Blueprint) :
    (opening blueprint (initial blueprint)).draft = blueprint.header := by
  have hnext : (initial blueprint).next = blueprint.header.next :=
    (withGlobals_next {}).trans (next_header blueprint).symm
  rw [Page.draft, opening, hnext]

theorem names_initial (blueprint : Blueprint) :
    (initial blueprint).names = blueprint.names.reverse := by
  rw [BinderState.names, initial, withGlobals_locals, names_withGlobals]
  exact List.append_nil _

theorem zip_resources (blueprint : Blueprint) :
    blueprint.resources.zip ((numbers blueprint).drop
      (blueprint.params.length + blueprint.vars.length)) = blueprint.numberedResources := by
  rw [numbers, ← List.map_drop, List.drop_range', Nat.mul_one, Nat.zero_add]
  apply zip_range'
  simp only [Blueprint.globals, List.length_append, List.length_map]
  omega

theorem zip_modules (blueprint : Blueprint) :
    blueprint.modules.zip (((numbers blueprint).drop
      (blueprint.params.length + blueprint.vars.length)).drop blueprint.resources.length) =
      blueprint.numberedModules := by
  rw [numbers, List.drop_drop, ← List.map_drop, List.drop_range', Nat.mul_one, Nat.zero_add]
  apply zip_range'
  simp only [Blueprint.globals, List.length_append, List.length_map]
  omega

/-- No name is declared twice, so the order of the names makes no difference to what is bound. -/
theorem bindAll_of_effect (hnew : firstRepeated? [] (blueprint.globals.map (·.1)) = none)
    {bodies : List Body}
    (h : Effect (fun names => Binder.bodies names bodies) (initial blueprint) b) :
    blueprint.symbols.bindAll blueprint.names bodies = .ok b.symbols := by
  have hnodup : (blueprint.names.map (·.1)).Nodup := by
    have hnames : blueprint.names.map (·.1) = blueprint.globals.map (·.1) := by
      rw [Blueprint.names, List.map_map, blueprint.map_fst_globals]
      exact blueprint.map_fst_zipIdx_globals
    rw [hnames]
    exact (firstRepeated?_eq_none_iff.mp hnew).1
  have hbind := h.symbols
  rw [names_initial, Binder.bodies_congr (lookup_reverse hnodup), initial, symbols_withGlobals]
    at hbind
  exact congrArg (Except.map _) hbind

/-- What is built in one pass is what is built in two, unless it is too long. No text is read in
vain but for what it says, and none is too deep. -/
theorem build_eq (blueprint : Blueprint) :
    build blueprint = blueprint.build.mapError .declared >>= sized := by
  unfold build Blueprint.build
  rw [run_globals]
  cases hnew : firstRepeated? [] (blueprint.globals.map (·.1)) with
  | some name => rfl
  | none =>
    have htracks := tracks_declarations (BinderState.Reachable.initial.withGlobals hnew)
      (zip_resources blueprint) (zip_modules blueprint) (opening blueprint (initial blueprint)) rfl
    rw [draft_opening] at htracks
    rw [written_eq_writing]
    simp only [mapError_bind, bind_assoc, pure_bind]
    cases hwriting : (writing blueprint).run blueprint.header with
    | error cause =>
      rw [hwriting] at htracks
      rw [htracks]
      rfl
    | ok result =>
      obtain ⟨declared, draft⟩ := result
      rw [hwriting] at htracks
      obtain ⟨page, hrun, rfl, -, heffect⟩ := htracks
      have hbind := bindAll_of_effect hnew heffect
      rw [hrun]
      change blueprint.ancestry.mapError Fault.declared >>= _ =
        blueprint.ancestry.mapError Fault.declared >>= _
      refine bind_congr fun ancestors => bind_congr fun resourceScopes =>
        bind_congr fun moduleScopes => ?_
      change _ = ((blueprint.symbols.bindAll blueprint.names (declared.program 0).bodies).mapError
        BuildError.binding).mapError Fault.declared >>= _
      rw [hbind]
      rfl

end OnePass

end Preflight
