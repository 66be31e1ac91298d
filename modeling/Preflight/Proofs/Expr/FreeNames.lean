import Preflight.Expr.Free
import Preflight.Proofs.Binding
import Preflight.Proofs.Expr.References

/-! # Free names and references

In a tree that is bound, the references to what is in sight around it are told by its free names. -/

namespace Preflight
set_option autoImplicit false

namespace Expr

theorem freeNames_eq_flatMap {e : Expr} (h : e.isPlain) :
    e.freeNames = e.children.flatMap freeNames := by
  rcases e with _ | _ | _ | _ | _ | _ | _ | _ | _ | ⟨_, _ | _, _, _⟩ | _ | _ | _ | _ | _
  case var | loop | lambda => simp [isPlain] at h
  all_goals
    simp [freeNames, children, freeNamesAll_eq_flatMap, freeNamesIn_eq_flatMap, List.flatMap_map]

theorem isReference_of_isPlain {e : Expr} (h : e.isPlain) : e.isReference = false := by
  cases e with
  | var => simp [isPlain] at h
  | _ => rfl

theorem freeNames_map (r : Relabelling) (e : Expr) : (e.map r).freeNames = e.freeNames := by
  induction e using scopeInduction with
  | plain e h ih =>
    have hm : (e.map r).isPlain := by rw [isPlain_map, h]
    rw [freeNames_eq_flatMap hm, freeNames_eq_flatMap h, children_map, List.flatMap_map]
    exact List.flatMap_congr ih
  | var n x => rfl
  | loop n item index collection body ihc ihb =>
    have hv : (item.map r :: (index.map (·.map r)).toList).map LocalVar.name =
        (item :: index.toList).map LocalVar.name := by cases index <;> rfl
    simp only [map, freeNames, ihc, ihb, hv]
  | lambda n params body ih =>
    have hv : (params.map (·.map r)).map LocalVar.name = params.map LocalVar.name := by
      rw [List.map_map]
      rfl
    simp only [map, freeNames, ih, hv]

end Expr

variable {t : SymbolTable} {names inner : Names}

theorem Expr.Bound.of_mem_children {e c : Expr} (h : Expr.Bound t names e) (hplain : e.isPlain)
    (hc : c ∈ e.children) : Expr.Bound t names c := by
  cases h with
  | reference | loop | lambda => simp [Expr.isPlain] at hplain
  | plain _ children => exact children c hc

/-- A symbol that a name in sight stands for is what the variables of a binder inside shadow. -/
theorem Declares.lookup_eq_some_iff {vars : List LocalVar} (h : Declares t names vars inner)
    {p : String × SymbolId} (hp : p ∈ names) {x : String} :
    inner.lookup x = some p.2 ↔ x ∉ vars.map LocalVar.name ∧ names.lookup x = some p.2 := by
  by_cases hx : x ∈ vars.map LocalVar.name
  · obtain ⟨v, -, -, id, introduces, hlookup⟩ := h.lookup_of_mem hx
    have hne : id ≠ p.2 := (introduces.fresh p hp).symm
    simp [hlookup, hx, hne]
  · simp [h.lookup_of_not_mem hx, hx]

/-- The local symbols that are in sight around a tree are referred to in it through its free
names. -/
theorem Expr.Bound.mem_localReferences_iff {e : Expr} (h : Expr.Bound t names e)
    {p : String × SymbolId} (hp : p ∈ names) {s : Symbol} (hs : t.get? p.2 = some s)
    (hlocal : s.isLocal) :
    p.2 ∈ e.localReferences t ↔ ∃ x ∈ e.freeNames, names.lookup x = some p.2 := by
  induction h with
  | reference bound =>
    simp only [Expr.localReferences, Option.mem_toList, SymbolTable.localAt?_eq_some_iff, bound]
    simp [Expr.freeNames, hs, hlocal]
  | loop outside declares inside ihc ihb =>
    simp only [Expr.localReferences, List.mem_append, ihc hp, ihb (declares.mem_inner hp),
      declares.lookup_eq_some_iff hp, Expr.freeNames, List.mem_filter, decide_eq_true_eq,
      or_and_right, exists_or, and_assoc]
  | lambda declares inside ih =>
    simp only [Expr.localReferences, ih (declares.mem_inner hp), declares.lookup_eq_some_iff hp,
      Expr.freeNames, List.mem_filter, decide_eq_true_eq, and_assoc]
  | plain plain children ih =>
    rw [Expr.localReferences_eq_flatMap t (Expr.isReference_of_isPlain plain),
      Expr.freeNames_eq_flatMap plain]
    simp only [List.mem_flatMap]
    constructor
    · rintro ⟨c, hc, href⟩
      obtain ⟨x, hx, hlookup⟩ := (ih c hc hp).mp href
      exact ⟨x, ⟨c, hc, hx⟩, hlookup⟩
    · rintro ⟨x, ⟨c, hc, hx⟩, hlookup⟩
      exact ⟨c, hc, (ih c hc hp).mpr ⟨x, hx, hlookup⟩⟩

theorem Introduces.declaredLocal? {v : LocalVar} {id : SymbolId} (h : Introduces t names v id) :
    t.declaredLocal? v = some id :=
  SymbolTable.localAt?_eq_some_iff.mpr ⟨h.bound, _, h.declared, rfl⟩

/-- Right inside a loop, a tree is invariant if no name of a loop variable is free in it. -/
theorem Expr.Bound.isInvariant_iff {item : LocalVar} {index : Option LocalVar} {e : Expr}
    (declares : Declares t names (item :: index.toList) inner) (h : Expr.Bound t inner e) :
    e.isInvariant t item index = true ↔ ∀ v ∈ item :: index.toList, v.name ∉ e.freeNames := by
  rw [Expr.isInvariant_iff]
  constructor
  · intro hvars v hv hfree
    -- `v` itself may be out of sight, behind a variable `w` of the same name
    obtain ⟨w, hw, -, id, introduces, hlookup⟩ :=
      declares.lookup_of_mem (List.mem_map_of_mem hv)
    obtain ⟨id', hid', hnot⟩ := hvars w hw
    obtain rfl : id = id' := Option.some.inj (introduces.declaredLocal?.symm.trans hid')
    apply hnot
    have hmem := Names.mem_of_lookup hlookup
    exact (h.mem_localReferences_iff hmem introduces.declared rfl).mpr ⟨v.name, hfree, hlookup⟩
  · intro hvars v hv
    obtain ⟨id, introduces, hmem⟩ := declares.exists_introduces hv
    refine ⟨id, introduces.declaredLocal?, fun href => ?_⟩
    obtain ⟨x, hfree, hlookup⟩ := (h.mem_localReferences_iff hmem introduces.declared rfl).mp href
    -- a name that stands for `id` is that of a variable: nothing outside of the loop has `id`
    by_cases hx : x ∈ (item :: index.toList).map LocalVar.name
    · obtain ⟨w, hw, rfl, id', introduces', hlookup'⟩ := declares.lookup_of_mem hx
      obtain rfl : id' = id := Option.some.inj (hlookup'.symm.trans hlookup)
      exact hvars w hw hfree
    · rw [declares.lookup_of_not_mem hx] at hlookup
      exact introduces.fresh _ (Names.mem_of_lookup hlookup) rfl

end Preflight
