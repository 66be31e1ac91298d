import Preflight.Expr.Children

/-! # Relabelled trees

Relabelling twice is relabelling once. Erasing keeps everything but places. -/

namespace Preflight
set_option autoImplicit false

def Relabelling.andThen (r s : Relabelling) : Relabelling where
  span := s.span ∘ r.span
  index := s.index ∘ r.index
  segment := s.segment ∘ r.segment

namespace Expr

theorem map_call (r : Relabelling) (n : Node) (base : Option Expr) (name : String)
    (args : List Expr) :
    (call n base name args).map r = call (n.map r) (base.map (map r)) name (args.map (map r)) := by
  cases base <;> simp [map, mapAll_eq_map]

theorem map_map (r s : Relabelling) (e : Expr) : (e.map r).map s = e.map (r.andThen s) := by
  induction e using childInduction with
  | step e ih =>
    rcases e with _ | _ | _ | _ | _ | _ | _ | _ | _ | ⟨_, _ | _, _, _⟩ | _ | _ | _ |
      ⟨_, _, _ | _, _, _⟩ | _ <;>
      simp_all [map, children, mapAll_eq_map, mapProperties_eq_map, Node.map, LocalVar.map,
        Relabelling.andThen]

/-! ## Erased trees -/

section

variable (n : Node)

theorem erase_string (segments : List String) (holes : List Expr) :
    (string n segments holes).erase = string {} segments (holes.map erase) := by
  rw [erase, map, mapAll_eq_map, List.map_id]
  rfl

theorem erase_array (items : List Expr) : (array n items).erase = array {} (items.map erase) := by
  rw [erase, map, mapAll_eq_map]
  rfl

theorem erase_call (name : String) (args : List Expr) :
    (call n none name args).erase = call {} none name (args.map erase) := by
  rw [erase, map, mapAll_eq_map]
  rfl

theorem erase_method (base : Expr) (name : String) (args : List Expr) :
    (call n (some base) name args).erase =
      call {} (some base.erase) name (args.map erase) := by
  rw [erase, map, mapAll_eq_map]
  rfl

/-- The pairs of keys and values that a list of properties sets, places aside. -/
def settings (ps : List (Property Expr)) : List (String × Expr) :=
  ps.map fun p => (p.key, p.value.erase)

theorem erase_object (ps : List (Property Expr)) :
    (object n ps).erase = object {} ((settings ps).map fun p => ⟨{}, p.1, p.2⟩) := by
  rw [erase, map, mapProperties_eq_map, settings, List.map_map]
  rfl

/-- A variable of this name and of no place. -/
def bareVariable (name : String) : LocalVar := ⟨{}, name⟩

theorem erase_loop (item : LocalVar) (index : Option LocalVar) (collection body : Expr) :
    (loop n item index collection body).erase =
      loop {} (bareVariable item.name) ((index.map LocalVar.name).map bareVariable)
        collection.erase body.erase := by
  rw [Option.map_map]
  rfl

theorem erase_lambda (params : List LocalVar) (body : Expr) :
    (lambda n params body).erase =
      lambda {} ((params.map LocalVar.name).map bareVariable) body.erase := by
  rw [List.map_map]
  rfl

end

end Expr

end Preflight
