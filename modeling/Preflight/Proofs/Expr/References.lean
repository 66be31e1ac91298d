import Preflight.Expr.Children
import Preflight.Expr.Dependencies

/-! # References to local variables

The local variables that an expression depends on are those that its references, at whatever depth,
are bound to. -/

namespace Preflight
set_option autoImplicit false

namespace Expr

theorem partOf_iff {x e : Expr} : PartOf x e ↔ x = e ∨ ∃ c ∈ e.children, PartOf x c := by
  constructor
  · intro h
    cases h with
    | self => exact .inl rfl
    | child mem part => exact .inr ⟨_, mem, part⟩
  · rintro (rfl | ⟨c, mem, part⟩)
    · exact .self x
    · exact .child mem part

def isReference : Expr → Bool
  | var .. => true
  | _ => false

/-- The references of a tree are those of its children, unless it is one itself. -/
theorem reference_partOf_iff {n : Node} {x : String} {e : Expr} (h : e.isReference = false) :
    PartOf (var n x) e ↔ ∃ c ∈ e.children, PartOf (var n x) c := by
  rw [partOf_iff, or_iff_right]
  rintro rfl
  simp [isReference] at h

theorem reference_partOf_var_iff {m n : Node} {x y : String} :
    PartOf (var m x) (var n y) ↔ var m x = var n y := by
  rw [partOf_iff]
  simp [children]

variable (symbols : SymbolTable)

theorem localReferencesAll_eq_flatMap (es : List Expr) :
    localReferencesAll symbols es = es.flatMap (localReferences symbols) := by
  induction es with
  | nil => rfl
  | cons e es ih => rw [localReferencesAll, ih, List.flatMap_cons]

theorem localReferencesIn_eq_flatMap (ps : List (Property Expr)) :
    localReferencesIn symbols ps = (ps.map Property.value).flatMap (localReferences symbols) := by
  induction ps with
  | nil => rfl
  | cons p ps ih => rw [localReferencesIn, ih, List.map_cons, List.flatMap_cons]

theorem localReferences_eq_flatMap {e : Expr} (h : e.isReference = false) :
    e.localReferences symbols = e.children.flatMap (localReferences symbols) := by
  rcases e with _ | _ | _ | _ | _ | _ | _ | _ | _ | ⟨_, _ | _, _, _⟩ | _ | _ | _ | _ | _
  case var => simp [isReference] at h
  all_goals
    simp [localReferences, children, localReferencesAll_eq_flatMap, localReferencesIn_eq_flatMap]

theorem mem_localReferences_iff {e : Expr} {id : SymbolId} :
    id ∈ e.localReferences symbols ↔
      ∃ n x, PartOf (var n x) e ∧ symbols.localAt? n.index = some id := by
  induction e using childInduction with
  | step e ih =>
    cases h : e.isReference with
    | false =>
      rw [localReferences_eq_flatMap symbols h, List.mem_flatMap]
      simp only [reference_partOf_iff h]
      constructor
      · rintro ⟨c, mem, hid⟩
        obtain ⟨n, x, part, bound⟩ := (ih c mem).mp hid
        exact ⟨n, x, ⟨c, mem, part⟩, bound⟩
      · rintro ⟨n, x, ⟨c, mem, part⟩, bound⟩
        exact ⟨c, mem, (ih c mem).mpr ⟨n, x, part, bound⟩⟩
    | true =>
      cases e with
      | var m y =>
        simp only [localReferences, Option.mem_toList, reference_partOf_var_iff]
        constructor
        · intro bound
          exact ⟨m, y, rfl, bound⟩
        · rintro ⟨n, x, ⟨rfl, rfl⟩, bound⟩
          exact bound
      | _ => simp [isReference] at h

theorem isInvariant_iff {item : LocalVar} {index : Option LocalVar} {e : Expr} :
    e.isInvariant symbols item index = true ↔
      ∀ v ∈ item :: index.toList, ∃ id, symbols.declaredLocal? v = some id ∧
        id ∉ e.localReferences symbols := by
  simp only [isInvariant, List.all_eq_true, Option.any_eq_true]
  simp only [Bool.not_eq_true', ← Bool.not_eq_true, Std.TreeSet.contains_iff_mem,
    mem_localDependencies]

end Expr

end Preflight
