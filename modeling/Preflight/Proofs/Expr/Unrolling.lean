import Preflight.Expr.Substitution
import Preflight.Proofs.Expr.Alike
import Preflight.Proofs.Expr.References

/-! # Unrolled loops -/

namespace Preflight
set_option autoImplicit false

namespace Expr

variable {new new' : Node → Option Expr}

theorem substituteAll_eq_map (es : List Expr) : substituteAll new es = es.map (substitute new) := by
  induction es with
  | nil => rfl
  | cons e es ih => rw [substituteAll, ih, List.map_cons]

theorem substituteIn_eq_map (ps : List (Property Expr)) :
    substituteIn new ps = ps.map fun p => ⟨p.span, p.key, p.value.substitute new⟩ := by
  induction ps with
  | nil => rfl
  | cons p ps ih => rw [substituteIn, ih, List.map_cons]

theorem substitute_call (n : Node) (base : Option Expr) (name : String) (args : List Expr) :
    (call n base name args).substitute new =
      call n (base.map (substitute new)) name (args.map (substitute new)) := by
  cases base <;> simp [substitute, substituteAll_eq_map]

/-- Substitution touches nothing but the children of a node that is no reference. -/
theorem matches_substitute_iff {R : Expr → Expr → Prop} {e : Expr} (h : e.isReference = false) :
    Matches R (e.substitute new) (e.substitute new') ↔
      ∀ c ∈ e.children, R (c.substitute new) (c.substitute new') := by
  constructor
  · intro hm
    rcases e with _ | _ | _ | _ | _ | _ | _ | _ | _ | ⟨_, _ | _, _, _⟩ | _ | _ | _ | _ | _
    case var => simp [isReference] at h
    all_goals
      simp only [substitute] at hm
      cases hm
      simp_all [children, substituteAll_eq_map, substituteIn_eq_map]
  · intro hc
    cases e with
    | var => simp [isReference] at h
    | int | bool | null => simp only [substitute]; constructor
    | string n segments holes =>
      rw [substitute, substitute, substituteAll_eq_map, substituteAll_eq_map]
      exact .string rfl (by simpa [children] using hc)
    | array n items =>
      rw [substitute, substitute, substituteAll_eq_map, substituteAll_eq_map]
      exact .array (by simpa [children] using hc)
    | object n ps =>
      rw [substitute, substitute, substituteIn_eq_map, substituteIn_eq_map]
      exact .object (by simpa [children] using hc)
    | member n base => exact .member (hc base (by simp [children]))
    | subscript n base key =>
      exact .subscript (hc base (by simp [children])) (hc key (by simp [children]))
    | call n base name args =>
      rw [substitute_call, substitute_call]
      refine .call ?_ (by simpa using fun c mem => hc c (List.mem_append_right _ mem))
      cases base with
      | none => exact .none
      | some base => exact .some (hc base (by simp [children]))
    | unary n op operand => exact .unary (hc operand (by simp [children]))
    | binary n op lhs rhs =>
      exact .binary (hc lhs (by simp [children])) (hc rhs (by simp [children]))
    | ternary n c t f =>
      exact .ternary (hc c (by simp [children])) (hc t (by simp [children]))
        (hc f (by simp [children]))
    | loop n item index c b =>
      exact .loop rfl rfl (hc c (by simp [children])) (hc b (by simp [children]))
    | lambda n params b => exact .lambda rfl (hc b (by simp [children]))

/-- Two substitutions in one tree give like trees if they put like things at each reference. -/
theorem substitute_alike_iff {e : Expr} :
    (e.substitute new).alike (e.substitute new') = true ↔ ∀ n x, PartOf (var n x) e →
      ((new n).getD (var n x)).alike ((new' n).getD (var n x)) = true := by
  induction e using childInduction with
  | step e ih =>
    cases h : e.isReference with
    | false =>
      rw [alike_iff_matches, matches_substitute_iff h]
      simp only [reference_partOf_iff h]
      constructor
      · rintro hc n x ⟨c, mem, part⟩
        exact (ih c mem).mp (hc c mem) n x part
      · intro hr c mem
        exact (ih c mem).mpr fun n x part => hr n x ⟨c, mem, part⟩
    | true =>
      cases e with
      | var m y =>
        simp only [substitute, reference_partOf_var_iff]
        constructor
        · rintro hm n x ⟨rfl, rfl⟩
          exact hm
        · intro hr
          exact hr m y rfl
      | _ => simp [isReference] at h

variable (symbols : SymbolTable)

/-- The value of the loop variables makes a difference exactly where one of them is referred to. -/
theorem unroll_alike_iff {item : SymbolId} {index : Option SymbolId} {e : Expr} :
    (∀ u v u' v',
      (unroll symbols item index u v e).alike (unroll symbols item index u' v' e) = true)
      ↔ ∀ id ∈ e.localReferences symbols, id ≠ item ∧ some id ≠ index := by
  simp only [unroll, substitute_alike_iff, mem_localReferences_iff]
  constructor
  · rintro h id ⟨n, x, part, bound⟩
    -- Two numbers tell any two iterations apart.
    have hnx := h (.int {} 0) (.int {} 0) (.int {} 1) (.int {} 1) n x part
    constructor
    · rintro rfl
      simp [bound, alike] at hnx
    · rintro rfl
      by_cases same : id = item <;> simp [bound, same, alike] at hnx
  · intro h u v u' v' n x part
    cases bound : symbols.localAt? n.index with
    | none =>
      cases index <;> simp [alike_refl]
    | some id =>
      obtain ⟨hitem, hindex⟩ := h id ⟨n, x, part, bound⟩
      simp [hitem, hindex, alike_refl]

/-- An expression is invariant in a loop whose variables are bound exactly if all iterations are
alike. Where a variable of the loop is not bound to a local symbol, nothing is invariant. -/
theorem isInvariant_iff_unroll_alike (item : LocalVar) (index : Option LocalVar) (e : Expr) :
    (∀ (s : SymbolId) (t : Option SymbolId), symbols.declaredLocal? item = some s →
      index.map symbols.declaredLocal? = t.map some →
      (e.isInvariant symbols item index = true ↔ ∀ u v u' v',
        (unroll symbols s t u v e).alike (unroll symbols s t u' v' e) = true)) ∧
    ((symbols.declaredLocal? item = none ∨ ∃ i ∈ index, symbols.declaredLocal? i = none) →
      e.isInvariant symbols item index = false) := by
  constructor
  · intro s t hs ht
    rw [isInvariant_iff, unroll_alike_iff]
    cases index with
    | none =>
      obtain rfl : t = none := by simpa using ht.symm
      have item_unused : s ∉ e.localReferences symbols ↔
          ∀ id ∈ e.localReferences symbols, id ≠ s :=
        ⟨fun h id hid => ne_of_mem_of_not_mem hid h, fun h hs => h s hs rfl⟩
      simpa [hs] using item_unused
    | some i =>
      obtain ⟨t', rfl, ht'⟩ : ∃ t', t = some t' ∧ symbols.declaredLocal? i = some t' := by
        cases t with
        | none => simp at ht
        | some t' => exact ⟨t', rfl, by simpa using ht⟩
      have both_unused : (s ∉ e.localReferences symbols ∧ t' ∉ e.localReferences symbols) ↔
          ∀ id ∈ e.localReferences symbols, id ≠ s ∧ id ≠ t' :=
        ⟨fun h id hid => ⟨ne_of_mem_of_not_mem hid h.1, ne_of_mem_of_not_mem hid h.2⟩,
          fun h => ⟨fun hs => (h s hs).1 rfl, fun ht => (h t' ht).2 rfl⟩⟩
      simpa [hs, ht'] using both_unused
  · intro h
    rw [← Bool.not_eq_true, isInvariant_iff]
    intro hbound
    obtain hitem | ⟨i, hi, hnone⟩ := h
    · obtain ⟨id, hid, -⟩ := hbound item List.mem_cons_self
      simp [hitem] at hid
    · obtain ⟨id, hid, -⟩ := hbound i (by simp [Option.mem_def.mp hi])
      simp [hnone] at hid

end Expr

end Preflight
