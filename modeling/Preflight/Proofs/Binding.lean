import Preflight.Binding
import Preflight.Proofs.Numbering

/-! # What is bound

In a program whose indices are distinct, binding cannot fail. Afterwards each variable has a symbol
of its own, and each reference is bound to the innermost declaration of its name. -/

namespace Preflight
set_option autoImplicit false

variable {t t' t'' : SymbolTable} {names inner : Names} {indices indices' : List Nat}

namespace SymbolTable

theorem declared_of_bind {index : Nat} {id : SymbolId} (h : t.bind index id = .ok t') :
    t'.declared = t.declared := by
  unfold bind at h
  split at h
  · split at h
    · cases h
    · cases h
      rfl
  · cases h

theorem bindings_of_bind {index : Nat} {id : SymbolId} (h : t.bind index id = .ok t') (i : Nat) :
    t'.bindings.get? i = if index = i then some id else t.bindings.get? i := by
  unfold bind at h
  split at h
  · split at h
    next => cases h
    next hset =>
      cases h
      rw [NodeTable.get?_of_set hset, NodeTable.get?_ensure]
  · cases h

theorem get?_congr (h : t'.declared = t.declared) (id : SymbolId) : t'.get? id = t.get? id := by
  rw [get?, get?, h]

/-- A node can be bound to any symbol that is declared. -/
theorem exists_bind {id : SymbolId} {s : Symbol} (h : t.get? id = some s) (index : Nat) :
    ∃ t', t.bind index id = .ok t' := by
  cases hb : t.bind index id with
  | ok t' => exact ⟨t', rfl⟩
  | error e =>
    have hnone := (bind_eq_error_iff.mp hb).1
    rw [hnone] at h
    cases h

theorem get?_nextId (t : SymbolTable) : t.get? t.nextId = none := by
  simp [get?, nextId]

/-- Later tables keep the symbols, and the bindings of all nodes that were not touched. -/
structure Extends (t t' : SymbolTable) (touched : List Nat) : Prop where
  symbols : ∀ id s, t.get? id = some s → t'.get? id = some s
  bindings : ∀ i, i ∉ touched → t'.bindings.get? i = t.bindings.get? i

theorem Extends.refl (t : SymbolTable) : t.Extends t [] := ⟨fun _ _ h => h, fun _ _ => rfl⟩

theorem Extends.trans (h : t.Extends t' indices) (h' : t'.Extends t'' indices') :
    t.Extends t'' (indices ++ indices') := by
  constructor
  · exact fun id s hs => h'.symbols id s (h.symbols id s hs)
  · intro i hi
    rw [List.mem_append, not_or] at hi
    rw [h'.bindings i hi.2, h.bindings i hi.1]

theorem Extends.mono (h : t.Extends t' indices) (hsub : ∀ i ∈ indices, i ∈ indices') :
    t.Extends t' indices' :=
  ⟨h.symbols, fun i hi => h.bindings i fun hi' => hi (hsub i hi')⟩

theorem extends_of_bind {index : Nat} {id : SymbolId} (h : t.bind index id = .ok t') :
    t.Extends t' [index] := by
  constructor
  · intro id s hs
    rw [get?_congr (declared_of_bind h), hs]
  · intro i hi
    rw [bindings_of_bind h, if_neg (List.ne_of_not_mem_cons hi).symm]

theorem extends_declare (t : SymbolTable) (name : String) (kind : SymbolKind) :
    t.Extends (t.declare name kind) [] := by
  constructor
  · intro id s hs
    rw [get?_declare, if_neg, hs]
    rintro rfl
    rw [get?_nextId] at hs
    cases hs
  · exact fun _ _ => rfl

end SymbolTable

theorem Names.mem_of_lookup {x : String} {id : SymbolId} (h : names.lookup x = some id) :
    (x, id) ∈ names := by
  obtain ⟨before, after, hnames, -⟩ := List.lookup_eq_some_iff.mp h
  rw [hnames]
  exact List.mem_append_right _ List.mem_cons_self

/-- The indices are distinct and not bound yet, and the names in sight stand for symbols. -/
structure Ready (t : SymbolTable) (names : Names) (indices : List Nat) : Prop where
  nodup : indices.Nodup
  unbound : ∀ i ∈ indices, t.bindings.get? i = none
  declared : ∀ p ∈ names, ∃ s, t.get? p.2 = some s

namespace Ready

theorem left (h : Ready t names (indices ++ indices')) : Ready t names indices :=
  ⟨(List.nodup_append.mp h.nodup).1, fun i hi => h.unbound i (List.mem_append_left _ hi),
    h.declared⟩

theorem apart (h : Ready t names (indices ++ indices')) : ∀ i ∈ indices, i ∉ indices' :=
  fun i hi hi' => (List.nodup_append.mp h.nodup).2.2 i hi i hi' rfl

theorem right (h : Ready t names (indices ++ indices')) (he : t.Extends t' indices) :
    Ready t' names indices' := by
  refine ⟨(List.nodup_append.mp h.nodup).2.1, ?_, ?_⟩
  · intro i hi
    have fresh : i ∉ indices := fun hi' => h.apart i hi' hi
    rw [he.bindings i fresh]
    exact h.unbound i (List.mem_append_right _ hi)
  · intro p hp
    obtain ⟨s, hs⟩ := h.declared p hp
    exact ⟨s, he.symbols _ s hs⟩

end Ready

/-- The variable has a local symbol of its name, which no name in sight stands for. -/
structure Introduces (t : SymbolTable) (names : Names) (v : LocalVar) (id : SymbolId) : Prop where
  bound : t.bindings.get? v.node.index = some id
  declared : t.get? id = some ⟨id, v.name, .localVar⟩
  fresh : ∀ p ∈ names, p.2 ≠ id

/-- A binder adds its variables to the names in sight, first to last. -/
inductive Declares (t : SymbolTable) : Names → List LocalVar → Names → Prop
  | nil {names : Names} : Declares t names [] names
  | cons {names inner : Names} {v : LocalVar} {vars : List LocalVar} {id : SymbolId}
    (introduces : Introduces t names v id)
    (rest : Declares t ((v.name, id) :: names) vars inner) : Declares t names (v :: vars) inner

/-- Every reference in the tree is bound to what its name stands for, with `names` in sight around
the tree; it is not bound if it stands for nothing. -/
inductive Expr.Bound (t : SymbolTable) : Names → Expr → Prop
  | reference {names : Names} {n : Node} {x : String}
    (bound : t.bindings.get? n.index = names.lookup x) : Expr.Bound t names (.var n x)
  | loop {names inner : Names} {n : Node} {item : LocalVar} {index : Option LocalVar}
    {collection body : Expr} (outside : Expr.Bound t names collection)
    (declares : Declares t names (item :: index.toList) inner) (inside : Expr.Bound t inner body) :
    Expr.Bound t names (.loop n item index collection body)
  | lambda {names inner : Names} {n : Node} {params : List LocalVar} {body : Expr}
    (declares : Declares t names params inner) (inside : Expr.Bound t inner body) :
    Expr.Bound t names (.lambda n params body)
  | plain {names : Names} {e : Expr} (plain : e.isPlain)
    (children : ∀ c ∈ e.children, Expr.Bound t names c) : Expr.Bound t names e

namespace Declares

theorem mono {vars : List LocalVar} (h : Declares t names vars inner) (he : t.Extends t' indices)
    (hd : ∀ i ∈ LocalVar.indices vars, i ∉ indices) : Declares t' names vars inner := by
  induction h with
  | nil => exact .nil
  | cons introduces rest ih =>
    simp only [LocalVar.indices, List.map_cons, List.forall_mem_cons] at hd
    obtain ⟨bound, declared, fresh⟩ := introduces
    exact .cons ⟨by rw [he.bindings _ hd.1, bound], he.symbols _ _ declared, fresh⟩ (ih hd.2)

variable {vars : List LocalVar}

theorem mem_inner (h : Declares t names vars inner) {p : String × SymbolId} (hp : p ∈ names) :
    p ∈ inner := by
  induction h with
  | nil => exact hp
  | cons introduces rest ih => exact ih (List.mem_cons_of_mem _ hp)

theorem exists_introduces (h : Declares t names vars inner) {v : LocalVar} (hv : v ∈ vars) :
    ∃ id, Introduces t names v id ∧ (v.name, id) ∈ inner := by
  induction h with
  | nil => cases hv
  | cons introduces rest ih =>
    rcases List.mem_cons.mp hv with rfl | hv
    · exact ⟨_, introduces, rest.mem_inner List.mem_cons_self⟩
    · obtain ⟨id, ⟨bound, declared, fresh⟩, hid⟩ := ih hv
      exact ⟨id, ⟨bound, declared, (List.forall_mem_cons.mp fresh).2⟩, hid⟩

theorem lookup_of_not_mem (h : Declares t names vars inner) {x : String}
    (hx : x ∉ vars.map LocalVar.name) : inner.lookup x = names.lookup x := by
  induction h with
  | nil => rfl
  | cons introduces rest ih =>
    rw [List.map_cons, List.mem_cons, not_or] at hx
    rw [ih hx.2, List.lookup_cons, beq_eq_false_iff_ne.mpr hx.1]

theorem lookup_of_mem (h : Declares t names vars inner) {x : String}
    (hx : x ∈ vars.map LocalVar.name) :
    ∃ v ∈ vars, v.name = x ∧ ∃ id, Introduces t names v id ∧ inner.lookup x = some id := by
  induction h with
  | nil => cases hx
  | @cons names inner v vars id introduces rest ih =>
    -- a later variable of the same name is in front of `v`
    by_cases hlater : x ∈ vars.map LocalVar.name
    · obtain ⟨w, hw, hname, id', ⟨bound, declared, fresh⟩, hlookup⟩ := ih hlater
      have own : Introduces t names w id' :=
        ⟨bound, declared, (List.forall_mem_cons.mp fresh).2⟩
      exact ⟨w, List.mem_cons_of_mem v hw, hname, id', own, hlookup⟩
    · have hname : x = v.name := by
        rw [List.map_cons, List.mem_cons] at hx
        exact hx.resolve_right hlater
      refine ⟨v, List.mem_cons_self, hname.symm, id, introduces, ?_⟩
      rw [rest.lookup_of_not_mem hlater, hname, List.lookup_cons_self]

end Declares

namespace Expr.Bound

theorem mono {e : Expr} (h : Expr.Bound t names e) (he : t.Extends t' indices)
    (hd : ∀ i ∈ e.indices, i ∉ indices) : Expr.Bound t' names e := by
  induction h with
  | reference bound =>
    exact .reference (by rw [he.bindings _ (hd _ (by simp [Expr.indices])), bound])
  | loop outside declares inside ihc ihb =>
    simp only [Expr.indices, List.mem_append] at hd
    refine .loop (ihc fun i hi => hd i (by simp [hi])) ?_ (ihb fun i hi => hd i (by simp [hi]))
    exact declares.mono he fun i hi => hd i (by simp [hi])
  | lambda declares inside ih =>
    simp only [Expr.indices, List.mem_append] at hd
    refine .lambda ?_ (ih fun i hi => hd i (by simp [hi]))
    exact declares.mono he fun i hi => hd i (by simp [hi])
  | plain plain children ih =>
    rw [Expr.indices_eq_flatMap plain] at hd
    refine .plain plain fun c hc => ih c hc fun i hi => hd i ?_
    exact List.mem_append_left _ (List.mem_flatMap.mpr ⟨c, hc, hi⟩)

end Expr.Bound

/-! ## Runs of the binder -/

namespace Binder

variable {α β : Type}

theorem run_bind {index : Nat} {id : SymbolId} (h : t.bind index id = .ok t') :
    (bind index id).run t = .ok ((), t') := by
  show (do return ((), ← t.bind index id)) = _
  rw [h]
  rfl

theorem run_declareLocal_of_bind {v : LocalVar}
    (h : (t.declare v.name .localVar).bind v.node.index t.nextId = .ok t') (names : Names) :
    (declareLocal v names).run t = .ok ((v.name, t.nextId) :: names, t') := by
  have rest : (bind v.node.index t.nextId >>= fun _ => pure ((v.name, t.nextId) :: names)).run
      (t.declare v.name .localVar) = .ok ((v.name, t.nextId) :: names, t') := by
    rw [run_bind_of_ok (run_bind h)]
    rfl
  exact rest

/-- A variable gets the next symbol, which no name in sight stands for. -/
theorem run_declareLocal (t : SymbolTable) (v : LocalVar) (names : Names) :
    ∃ t', (declareLocal v names).run t = .ok ((v.name, t.nextId) :: names, t') ∧
      t.Extends t' [v.node.index] ∧ t'.bindings.get? v.node.index = some t.nextId ∧
      t'.get? t.nextId = some ⟨t.nextId, v.name, .localVar⟩ := by
  have declared : (t.declare v.name .localVar).get? t.nextId =
      some ⟨t.nextId, v.name, .localVar⟩ := by
    rw [SymbolTable.get?_declare, if_pos rfl]
  obtain ⟨t', hbind⟩ := SymbolTable.exists_bind declared v.node.index
  refine ⟨t', run_declareLocal_of_bind hbind names, ?_, ?_, ?_⟩
  · exact (t.extends_declare v.name .localVar).trans (SymbolTable.extends_of_bind hbind)
  · rw [SymbolTable.bindings_of_bind hbind, if_pos rfl]
  · rw [SymbolTable.get?_congr (SymbolTable.declared_of_bind hbind), declared]

theorem run_declareLocals {vars : List LocalVar} (h : Ready t names (LocalVar.indices vars)) :
    ∃ inner t', (declareLocals vars names).run t = .ok (inner, t') ∧
      t.Extends t' (LocalVar.indices vars) ∧ Declares t' names vars inner ∧
      ∀ p ∈ inner, ∃ s, t'.get? p.2 = some s := by
  induction vars generalizing t names with
  | nil => exact ⟨names, t, rfl, .refl t, .nil, h.declared⟩
  | cons v vars ih =>
    have h : Ready t names ([v.node.index] ++ LocalVar.indices vars) := h
    obtain ⟨t₁, run₁, ext₁, bound₁, declared₁⟩ := run_declareLocal t v names
    have ready : Ready t₁ ((v.name, t.nextId) :: names) (LocalVar.indices vars) := by
      obtain ⟨nodup, unbound, declared⟩ := h.right ext₁
      exact ⟨nodup, unbound, List.forall_mem_cons.mpr ⟨⟨_, declared₁⟩, declared⟩⟩
    obtain ⟨inner, t₂, run₂, ext₂, declares, declared⟩ := ih ready
    refine ⟨inner, t₂, ?_, ext₁.trans ext₂, .cons ⟨?_, ?_, ?_⟩ declares, declared⟩
    · rw [declareLocals, List.foldlM_cons, run_bind_of_ok run₁]
      exact run₂
    · rw [ext₂.bindings _ (h.apart _ (List.mem_singleton_self _)), bound₁]
    · exact ext₂.symbols _ _ declared₁
    · intro p hp hid
      obtain ⟨s, hs⟩ := h.declared p hp
      rw [hid, SymbolTable.get?_nextId] at hs
      cases hs

/-- References to names in sight can be bound, and others are left alone. -/
theorem run_reference {n : Node} {x : String} (h : Ready t names [n.index]) :
    ∃ t', (reference names n x).run t = .ok ((), t') ∧ t.Extends t' [n.index] ∧
      Expr.Bound t' names (.var n x) := by
  unfold reference
  cases hx : names.lookup x with
  | none =>
    refine ⟨t, rfl, (SymbolTable.Extends.refl t).mono (by simp), .reference ?_⟩
    rw [hx, h.unbound _ (List.mem_singleton_self _)]
  | some id =>
    obtain ⟨s, hs⟩ := h.declared _ (Names.mem_of_lookup hx)
    obtain ⟨t', hbind⟩ := SymbolTable.exists_bind hs n.index
    refine ⟨t', run_bind hbind, SymbolTable.extends_of_bind hbind, .reference ?_⟩
    rw [SymbolTable.bindings_of_bind hbind, if_pos rfl, hx]

theorem exprs_eq_forM (es : List Expr) : exprs names es = es.forM (expr names) := by
  induction es with
  | nil => rfl
  | cons e es ih => rw [exprs, ih, List.forM]

theorem properties_eq_forM (ps : List (Property Expr)) :
    properties names ps = (ps.map Property.value).forM (expr names) := by
  induction ps with
  | nil => rfl
  | cons p ps ih => rw [properties, ih, List.map_cons, List.forM]

theorem bodies_eq_forM (bs : List Body) : bodies names bs = bs.forM (body names) := by
  induction bs with
  | nil => rfl
  | cons b bs ih => rw [bodies, ih, List.forM]

theorem expr_eq_forM_children {e : Expr} (h : e.isPlain) :
    expr names e = e.children.forM (expr names) := by
  rcases e with _ | _ | _ | _ | _ | _ | _ | _ | _ | ⟨_, _ | _, _, _⟩ | _ | _ | _ | _ | _
  case var | loop | lambda => simp [Expr.isPlain] at h
  all_goals simp [expr, Expr.children, exprs_eq_forM, properties_eq_forM]

/-- Each name stands for the same in both. -/
def SameNames (names names' : Names) : Prop := ∀ x, names.lookup x = names'.lookup x

variable {names' : Names}

theorem SameNames.cons (h : SameNames names names') (p : String × SymbolId) :
    SameNames (p :: names) (p :: names') := by
  intro x
  rw [List.lookup_cons, List.lookup_cons, h x]

theorem declareLocals_cons (v : LocalVar) (vars : List LocalVar) (names : Names) :
    declareLocals (v :: vars) names = declareLocal v names >>= declareLocals vars :=
  List.foldlM_cons

theorem declareLocals_congr (h : SameNames names names') {m m' : Names → Binder β}
    (hm : ∀ inner inner', SameNames inner inner' → m inner = m' inner') (vars : List LocalVar) :
    declareLocals vars names >>= m = declareLocals vars names' >>= m' := by
  induction vars generalizing names names' with
  | nil => exact hm names names' h
  | cons v vars ih =>
    have hrest (id : SymbolId) : declareLocals vars ((v.name, id) :: names) >>= m =
        declareLocals vars ((v.name, id) :: names') >>= m' := ih (h.cons (v.name, id))
    rw [declareLocals_cons, declareLocals_cons]
    simp only [declareLocal, bind_assoc, pure_bind, hrest]

theorem forM_congr {f g : α → Binder Unit} {xs : List α} (h : ∀ x ∈ xs, f x = g x) :
    xs.forM f = xs.forM g := by
  induction xs with
  | nil => rfl
  | cons x xs ih =>
    obtain ⟨hx, hxs⟩ := List.forall_mem_cons.mp h
    rw [List.forM, List.forM, hx, ih hxs]

/-- What is bound depends on what the names stand for alone. -/
theorem expr_congr (h : SameNames names names') (e : Expr) : expr names e = expr names' e := by
  induction e using Expr.scopeInduction generalizing names names' with
  | plain e hplain ih =>
    rw [expr_eq_forM_children hplain, expr_eq_forM_children hplain]
    exact forM_congr fun c hc => ih c hc h
  | var n x => rw [expr, expr, reference, reference, h x]
  | loop n item index collection body ihc ihb =>
    rw [expr, expr, ihc h, declareLocals_congr h fun inner inner' => ihb]
  | lambda n params body ih =>
    rw [expr, expr, declareLocals_congr h fun inner inner' => ih]

theorem body_congr (h : SameNames names names') (b : Body) : body names b = body names' b := by
  induction b generalizing names names' with
  | object value => exact expr_congr h value
  | conditional span condition b ih => rw [body, body, expr_congr h, ih h]
  | loop head b ih =>
    rw [body, body, expr_congr h, declareLocals_congr h fun inner inner' => ih]
  | error span => rfl

theorem bodies_congr (h : SameNames names names') (bs : List Body) :
    bodies names bs = bodies names' bs := by
  rw [bodies_eq_forM, bodies_eq_forM]
  exact forM_congr fun b _ => body_congr h b

/-- Things side by side are bound one after the other. What holds once one of them is bound has to
last while the others are. -/
theorem run_forM {f : α → Binder Unit} (own : α → List Nat) (holds : SymbolTable → α → Prop)
    {xs : List α}
    (mono : ∀ {t t' : SymbolTable} {x : α} {l : List Nat}, holds t x → t.Extends t' l →
      (∀ i ∈ own x, i ∉ l) → holds t' x)
    (step : ∀ x ∈ xs, ∀ {t : SymbolTable}, Ready t names (own x) →
      ∃ t', (f x).run t = .ok ((), t') ∧ t.Extends t' (own x) ∧ holds t' x)
    (h : Ready t names (xs.flatMap own)) :
    ∃ t', (xs.forM f).run t = .ok ((), t') ∧ t.Extends t' (xs.flatMap own) ∧
      ∀ x ∈ xs, holds t' x := by
  induction xs generalizing t with
  | nil => exact ⟨t, rfl, .refl t, by simp⟩
  | cons x xs ih =>
    rw [List.flatMap_cons] at h
    obtain ⟨t₁, run₁, ext₁, hx⟩ := step x List.mem_cons_self h.left
    obtain ⟨t₂, run₂, ext₂, hxs⟩ :=
      ih (fun y hy => step y (List.mem_cons_of_mem x hy)) (h.right ext₁)
    refine ⟨t₂, ?_, ext₁.trans ext₂, List.forall_mem_cons.mpr ⟨?_, hxs⟩⟩
    · rw [List.forM, run_bind_of_ok run₁, run₂]
    · exact mono hx ext₂ h.apart

/-- What is inside a binder is bound with the variables of the binder in sight. -/
theorem run_scope {vars : List LocalVar} {p : Names → Binder Unit}
    {inside : SymbolTable → Names → Prop}
    (hp : ∀ {t : SymbolTable} {inner : Names}, Ready t inner indices →
      ∃ t', (p inner).run t = .ok ((), t') ∧ t.Extends t' indices ∧ inside t' inner)
    (h : Ready t names (LocalVar.indices vars ++ indices)) :
    ∃ inner t', (declareLocals vars names >>= p).run t = .ok ((), t') ∧
      t.Extends t' (LocalVar.indices vars ++ indices) ∧ Declares t' names vars inner ∧
      inside t' inner := by
  obtain ⟨inner, t₁, run₁, ext₁, declares, declared⟩ := run_declareLocals h.left
  have ready : Ready t₁ inner indices := ⟨(h.right ext₁).nodup, (h.right ext₁).unbound, declared⟩
  obtain ⟨t₂, run₂, ext₂, hinside⟩ := hp ready
  refine ⟨inner, t₂, by rw [run_bind_of_ok run₁, run₂], ext₁.trans ext₂, ?_, hinside⟩
  exact declares.mono ext₂ h.apart

theorem run_expr {e : Expr} : ∀ {t : SymbolTable} {names : Names}, Ready t names e.indices →
    ∃ t', (expr names e).run t = .ok ((), t') ∧ t.Extends t' e.indices ∧ Expr.Bound t' names e := by
  induction e using Expr.scopeInduction with
  | plain e hplain ih =>
    intro t names h
    rw [Expr.indices_eq_flatMap hplain] at h ⊢
    obtain ⟨t', run, ext, bound⟩ := run_forM Expr.indices (fun t c => Expr.Bound t names c)
      Expr.Bound.mono (fun c hc _ hr => ih c hc hr) h.left
    refine ⟨t', by rw [expr_eq_forM_children hplain, run], ?_, .plain hplain bound⟩
    exact ext.mono fun i hi => List.mem_append_left _ hi
  | var n x => exact run_reference
  | loop n item index collection body ihc ihb =>
    intro t names h
    -- the collection is bound before the variables come into sight
    rw [Expr.indices, List.append_assoc collection.indices] at h ⊢
    obtain ⟨t₁, run₁, ext₁, outside⟩ := ihc h.left.left
    obtain ⟨inner, t₂, run₂, ext₂, declares, inside⟩ := run_scope ihb (h.left.right ext₁)
    refine ⟨t₂, ?_, ?_, .loop ?_ declares inside⟩
    · rw [expr, run_bind_of_ok run₁]
      exact run₂
    · exact (ext₁.trans ext₂).mono fun i hi => List.mem_append_left _ hi
    · exact outside.mono ext₂ h.left.apart
  | lambda n params body ih =>
    intro t names h
    obtain ⟨inner, t', run, ext, declares, inside⟩ := run_scope ih h.left
    exact ⟨t', run, ext.mono fun i hi => List.mem_append_left _ hi, .lambda declares inside⟩

end Binder

/-- Every reference below the declaration is bound to what its name stands for. -/
def Body.Bound (t : SymbolTable) (names : Names) : Body → Prop
  | .object value => Expr.Bound t names value
  | .conditional _ condition body => Expr.Bound t names condition ∧ body.Bound t names
  | .loop head body => Expr.Bound t names head.collection ∧
    ∃ inner, Declares t names (head.item :: head.index.toList) inner ∧ body.Bound t inner
  | .error _ => True

theorem Body.Bound.mono {body : Body} (h : body.Bound t names) (he : t.Extends t' indices)
    (hd : ∀ i ∈ body.indices, i ∉ indices) : body.Bound t' names := by
  induction body generalizing names with
  | object value => exact Expr.Bound.mono h he hd
  | conditional span condition body ih =>
    simp only [Body.indices, List.mem_append] at hd
    exact ⟨h.1.mono he fun i hi => hd i (.inl hi), ih h.2 fun i hi => hd i (.inr hi)⟩
  | loop head body ih =>
    obtain ⟨outside, inner, declares, inside⟩ := h
    simp only [Body.indices, List.mem_append] at hd
    refine ⟨outside.mono he fun i hi => hd i (by simp [hi]), inner, ?_, ?_⟩
    · exact declares.mono he fun i hi => hd i (by simp [hi])
    · exact ih inside fun i hi => hd i (by simp [hi])
  | error span => trivial

namespace Binder

theorem run_body {b : Body} : ∀ {t : SymbolTable} {names : Names}, Ready t names b.indices →
    ∃ t', (body names b).run t = .ok ((), t') ∧ t.Extends t' b.indices ∧ b.Bound t' names := by
  induction b with
  | object value => exact run_expr
  | conditional span condition b ih =>
    intro t names h
    obtain ⟨t₁, run₁, ext₁, bound₁⟩ := run_expr h.left
    obtain ⟨t₂, run₂, ext₂, bound₂⟩ := ih (h.right ext₁)
    refine ⟨t₂, by rw [body, run_bind_of_ok run₁, run₂], ext₁.trans ext₂, ?_, bound₂⟩
    exact bound₁.mono ext₂ h.apart
  | loop head b ih =>
    intro t names h
    rw [Body.indices, List.append_assoc] at h ⊢
    obtain ⟨t₁, run₁, ext₁, outside⟩ := run_expr h.left
    obtain ⟨inner, t₂, run₂, ext₂, declares, inside⟩ := run_scope ih (h.right ext₁)
    refine ⟨t₂, ?_, ext₁.trans ext₂, ?_, inner, declares, inside⟩
    · rw [body, run_bind_of_ok run₁]
      exact run₂
    · exact outside.mono ext₂ h.apart
  | error span => exact fun {t} _ _ => ⟨t, rfl, .refl t, trivial⟩

end Binder

/-- Binding what has distinct indices does not fail, and binds every name in every body. -/
theorem SymbolTable.exists_bindAll {bodies : List Body}
    (h : Ready t names (bodies.flatMap Body.indices)) :
    ∃ t', t.bindAll names bodies = .ok t' ∧ t.Extends t' (bodies.flatMap Body.indices) ∧
      ∀ b ∈ bodies, b.Bound t' names := by
  obtain ⟨t', run, ext, bound⟩ :=
    Binder.run_forM Body.indices (fun t b => b.Bound t names) Body.Bound.mono
      (fun b _ _ hr => Binder.run_body hr) h
  refine ⟨t', ?_, ext, bound⟩
  rw [bindAll, Binder.bodies_eq_forM, run]
  rfl

end Preflight
