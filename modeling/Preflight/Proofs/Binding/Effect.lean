import Preflight.Proofs.Expr.Occurrences

/-! # What a run of the binder leaves behind

A run adds one symbol for each variable that it meets, in the order of reading, and binds the
variable to it. It binds no node besides these variables and the references on its way. -/

namespace Preflight
set_option autoImplicit false

variable {t t' t'' : SymbolTable} {names : Names} {indices indices' : List Nat}
  {vars vars' : List LocalVar} {os os' : List Occurrence}

/-- The second table is the first with symbols for `vars`. Each of these is bound to its own
symbol, and no other nodes were touched but those of `os`. -/
structure SymbolTable.Grows (t t' : SymbolTable) (vars : List LocalVar) (os : List Occurrence) :
    Prop where
  declared : t'.declared = t.declared ++ (vars.map fun v => (v.name, .localVar)).toArray
  bound : ∀ k v, vars[k]? = some v → t'.bindings.get? v.node.index = some ⟨t.declared.size + k⟩
  others : ∀ i, (∀ v ∈ vars, v.node.index ≠ i) → (∀ o ∈ os, o.node.index ≠ i) →
    t'.bindings.get? i = t.bindings.get? i

namespace SymbolTable.Grows

theorem refl (t : SymbolTable) : t.Grows t [] [] := ⟨by simp, by simp, fun _ _ _ => rfl⟩

theorem append (h : t.Grows t' vars os) (h' : t'.Grows t'' vars' os')
    (apart : ∀ v ∈ vars, (∀ w ∈ vars', w.node.index ≠ v.node.index) ∧
      ∀ o ∈ os', o.node.index ≠ v.node.index) :
    t.Grows t'' (vars ++ vars') (os ++ os') := by
  have hsize : t'.declared.size = t.declared.size + vars.length := by simp [h.declared]
  constructor
  · rw [h'.declared, h.declared]
    simp
  · intro k v hk
    rcases Nat.lt_or_ge k vars.length with hlt | hge
    · rw [List.getElem?_append_left hlt] at hk
      obtain ⟨hvars, hos⟩ := apart v (List.mem_of_getElem? hk)
      rw [h'.others _ hvars hos, h.bound k v hk]
    · rw [List.getElem?_append_right hge] at hk
      rw [h'.bound _ v hk, hsize, Nat.add_assoc, Nat.add_sub_cancel' hge]
  · intro i hvars hos
    rw [List.forall_mem_append] at hvars hos
    rw [h'.others i hvars.2 hos.2, h.others i hvars.1 hos.1]

theorem get?_eq_some (h : t.Grows t' vars os) {id : SymbolId} {s : Symbol}
    (hs : t.get? id = some s) : t'.get? id = some s := by
  obtain ⟨p, hp, rfl⟩ := Option.map_eq_some_iff.mp hs
  obtain ⟨hlt, -⟩ := Array.getElem?_eq_some_iff.mp hp
  rw [SymbolTable.get?, h.declared, Array.getElem?_append_left hlt, hp, Option.map_some]

theorem boundTo?_own (h : t.Grows t' vars os) {k : Nat} {v : LocalVar} (hk : vars[k]? = some v) :
    t'.boundTo? v.node.index = some ⟨⟨t.declared.size + k⟩, v.name, .localVar⟩ := by
  have declared : t'.declared[t.declared.size + k]? = some (v.name, .localVar) := by
    rw [h.declared, Array.getElem?_append_right (Nat.le_add_right _ _), Nat.add_sub_cancel_left]
    simp [hk]
  rw [boundTo?, h.bound k v hk, Option.bind_some, get?, declared, Option.map_some]

end SymbolTable.Grows

namespace Binder

variable {α β : Type}

/-- Every run of `p` that does not fail adds `vars` and touches `os`, all within `indices`. -/
structure Leaves (p : Binder α) (indices : List Nat) (vars : List LocalVar)
    (os : List Occurrence) : Prop where
  vars_mem : ∀ v ∈ vars, v.node.index ∈ indices
  occurrences_mem : ∀ o ∈ os, o.node.index ∈ indices
  grows : ∀ t a t', p.run t = .ok (a, t') → t.Grows t' vars os

namespace Leaves

theorem pure (a : α) : Leaves (pure a) [] [] [] := by
  refine ⟨by simp, by simp, fun t b t' run => ?_⟩
  cases run
  exact .refl t

theorem mono {p : Binder α} (h : Leaves p indices vars os) (hsub : indices ⊆ indices') :
    Leaves p indices' vars os :=
  ⟨fun v hv => hsub (h.vars_mem v hv), fun o ho => hsub (h.occurrences_mem o ho), h.grows⟩

/-- The two parts share no index, so that the second leaves alone what the first has bound. -/
theorem bind [Inhabited α] {p : Binder α} {q : α → Binder β} (hp : Leaves p indices vars os)
    (hq : ∀ a, Leaves (q a) indices' vars' os') (h : (indices ++ indices').Nodup) :
    Leaves (p >>= q) (indices ++ indices') (vars ++ vars') (os ++ os') := by
  have apart {i j : Nat} (hi : i ∈ indices) (hj : j ∈ indices') : j ≠ i :=
    ((List.nodup_append.mp h).2.2 i hi j hj).symm
  refine ⟨?_, ?_, fun t b t'' run => ?_⟩
  · exact List.forall_mem_append.mpr
      ⟨fun v hv => List.mem_append_left _ (hp.vars_mem v hv),
        fun v hv => List.mem_append_right _ ((hq default).vars_mem v hv)⟩
  · exact List.forall_mem_append.mpr
      ⟨fun o ho => List.mem_append_left _ (hp.occurrences_mem o ho),
        fun o ho => List.mem_append_right _ ((hq default).occurrences_mem o ho)⟩
  · rw [StateT.run_bind] at run
    obtain ⟨⟨a, t'⟩, hr, run⟩ := bind_eq_ok_iff.mp run
    refine (hp.grows t a t' hr).append ((hq a).grows t' b t'' run) fun v hv => ?_
    have hi := hp.vars_mem v hv
    exact ⟨fun w hw => apart hi ((hq a).vars_mem w hw),
      fun o ho => apart hi ((hq a).occurrences_mem o ho)⟩

theorem forM {γ : Type} {f : γ → Binder Unit} {own : γ → List Nat} {declared : γ → List LocalVar}
    {occurrences : γ → List Occurrence} {xs : List γ}
    (step : ∀ x ∈ xs, (own x).Nodup → Leaves (f x) (own x) (declared x) (occurrences x))
    (h : (xs.flatMap own).Nodup) :
    Leaves (xs.forM f) (xs.flatMap own) (xs.flatMap declared) (xs.flatMap occurrences) := by
  induction xs with
  | nil => exact .pure ()
  | cons x xs ih =>
    rw [List.forall_mem_cons] at step
    rw [List.flatMap_cons] at h
    obtain ⟨hx, hxs, -⟩ := List.nodup_append.mp h
    exact (step.1 hx).bind (fun _ => ih step.2 hxs) h

end Leaves

theorem bind_of_run {index : Nat} {id : SymbolId} {u : Unit}
    (run : (bind index id).run t = .ok (u, t')) : t.bind index id = .ok t' := by
  obtain ⟨_, hbind, h⟩ := bind_eq_ok_iff.mp run
  cases h
  exact hbind

/-- The next symbol is the variable's own. -/
theorem leaves_declareLocal (v : LocalVar) (names : Names) :
    Leaves (declareLocal v names) [v.node.index] [v] [] := by
  refine ⟨by simp, by simp, fun t a t' run => ?_⟩
  have hbind : (t.declare v.name .localVar).bind v.node.index t.nextId = .ok t' := by
    change (bind v.node.index t.nextId >>= fun _ => pure ((v.name, t.nextId) :: names)).run
      (t.declare v.name .localVar) = _ at run
    rw [StateT.run_bind] at run
    obtain ⟨⟨u, t₁⟩, hr, h⟩ := bind_eq_ok_iff.mp run
    cases h
    exact bind_of_run hr
  constructor
  · rw [SymbolTable.declared_of_bind hbind]
    simp [SymbolTable.declare]
  · intro k w hk
    obtain ⟨rfl, rfl⟩ : k = 0 ∧ v = w := by simpa [List.getElem?_singleton] using hk
    rw [SymbolTable.bindings_of_bind hbind, if_pos rfl]
    rfl
  · intro i hvars _
    rw [SymbolTable.bindings_of_bind hbind, if_neg (hvars v (List.mem_singleton_self v))]
    rfl

theorem leaves_declareLocals {vars : List LocalVar} (h : (LocalVar.indices vars).Nodup) :
    ∀ names, Leaves (declareLocals vars names) (LocalVar.indices vars) vars [] := by
  induction vars with
  | nil => exact fun names => .pure names
  | cons v vars ih =>
    intro names
    exact (leaves_declareLocal v names).bind (fun inner => ih (List.nodup_cons.mp h).2 inner) h

theorem leaves_reference (names : Names) (node : Node) (name : String) (inSight : List LocalVar) :
    Leaves (reference names node name) [node.index] [] [⟨node, name, inSight⟩] := by
  refine ⟨by simp, by simp, fun t a t' run => ?_⟩
  unfold reference at run
  split at run
  next =>
    cases run
    exact ⟨by simp, by simp, fun _ _ _ => rfl⟩
  next id _ =>
    have hbind := bind_of_run run
    refine ⟨by simp [SymbolTable.declared_of_bind hbind], by simp, fun i _ hos => ?_⟩
    rw [SymbolTable.bindings_of_bind hbind, if_neg (hos _ (List.mem_singleton_self _))]

theorem leaves_scope {p : Names → Binder Unit}
    (hp : indices.Nodup → ∀ inner, Leaves (p inner) indices vars' os)
    (h : (LocalVar.indices vars ++ indices).Nodup) (names : Names) :
    Leaves (declareLocals vars names >>= p) (LocalVar.indices vars ++ indices) (vars ++ vars')
      os := by
  obtain ⟨hvars, hindices, -⟩ := List.nodup_append.mp h
  exact (leaves_declareLocals hvars names).bind (hp hindices) h

theorem leaves_expr {e : Expr} (h : e.indices.Nodup) (names : Names) (inSight : List LocalVar) :
    Leaves (expr names e) e.indices e.declared (e.occurrences inSight) := by
  induction e using Expr.scopeInduction generalizing names inSight with
  | plain e hplain ih =>
    rw [Expr.indices_eq_flatMap hplain] at h ⊢
    rw [expr_eq_forM_children hplain, Expr.declared_eq_flatMap hplain,
      Expr.occurrences_eq_flatMap inSight hplain]
    have step : ∀ c ∈ e.children, c.indices.Nodup →
        Leaves (expr names c) c.indices c.declared (c.occurrences inSight) :=
      fun c hc hown => ih c hc hown names inSight
    exact (Leaves.forM step (List.nodup_append.mp h).1).mono (List.subset_append_left _ _)
  | var n x => exact leaves_reference names n x inSight
  | loop n item index collection body ihc ihb =>
    have hown := (List.nodup_append.mp h).1
    rw [List.append_assoc collection.indices] at hown
    obtain ⟨hcollection, hscope, -⟩ := List.nodup_append.mp hown
    have scope := leaves_scope (fun hbody inner => ihb hbody inner
      (inSight ++ item :: index.toList)) hscope names
    have whole := (ihc hcollection names inSight).bind (fun _ => scope) hown
    rw [Expr.declared, List.append_assoc, Expr.indices, List.append_assoc collection.indices]
    exact whole.mono (List.subset_append_left _ _)
  | lambda n params body ih =>
    have scope := leaves_scope (fun hbody inner => ih hbody inner (inSight ++ params))
      (List.nodup_append.mp h).1 names
    exact scope.mono (List.subset_append_left _ _)

theorem leaves_body {b : Body} (h : b.indices.Nodup) (names : Names) (inSight : List LocalVar) :
    Leaves (body names b) b.indices b.declared (b.occurrences inSight) := by
  induction b generalizing names inSight with
  | object value => exact leaves_expr h names inSight
  | conditional span condition b ih =>
    obtain ⟨hcondition, hb, -⟩ := List.nodup_append.mp h
    exact (leaves_expr hcondition names inSight).bind (fun _ => ih hb names inSight) h
  | loop head b ih =>
    rw [Body.indices, List.append_assoc] at h ⊢
    obtain ⟨hcollection, hscope, -⟩ := List.nodup_append.mp h
    have scope := leaves_scope (fun hb inner => ih hb inner
      (inSight ++ head.item :: head.index.toList)) hscope names
    rw [Body.declared, List.append_assoc]
    exact (leaves_expr hcollection names inSight).bind (fun _ => scope) h
  | error span => exact .pure ()

end Binder

theorem SymbolTable.grows_of_bindAll {bodies : List Body}
    (h : (bodies.flatMap Body.indices).Nodup) (hbind : t.bindAll names bodies = .ok t') :
    t.Grows t' (bodies.flatMap Body.declared) (bodies.flatMap (Body.occurrences [])) := by
  obtain ⟨⟨u, t''⟩, run, hr⟩ := bind_eq_ok_iff.mp hbind
  cases hr
  rw [Binder.bodies_eq_forM] at run
  have step : ∀ b ∈ bodies, b.indices.Nodup →
      Binder.Leaves (Binder.body names b) b.indices b.declared (b.occurrences []) :=
    fun b _ hb => Binder.leaves_body hb names []
  exact (Binder.Leaves.forM step h).grows t u _ run

end Preflight
