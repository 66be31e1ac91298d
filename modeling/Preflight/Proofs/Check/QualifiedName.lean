import Mathlib.Data.List.Forall2
import Preflight.Proofs.Blueprint.Ancestry
import Preflight.Proofs.Check.LoopVariation
import Preflight.Proofs.Check.SharedIdentity
import Preflight.Proofs.ResourceType

/-! # Qualified names, told from the blueprint

Which names of a built program are reported as badly qualified can be told from the texts of the
blueprint alone: by the slashes in the name and in the type, and by whether a parent is named. -/

namespace Preflight
set_option autoImplicit false

namespace ResourceType

end ResourceType

/-- What a written body sets is read from the texts, key by key, through conditions and loops. -/
theorem Body.Written.property?_rel {condition : Option String}
    {properties : Std.TreeMap String String} {loop : Option LoopSpec} {body : Body}
    (h : body.Written condition properties loop) (key : String) :
    Option.Rel (fun text value => value.ReadFrom text) properties[key]? (body.property? key) := by
  obtain ⟨value, hvalue, hsets⟩ :
      ∃ value, body.object? = some value ∧ value.Sets properties := by
    cases h with
    | once written =>
      obtain ⟨value, hvalue, hsets, -⟩ := written.object?
      exact ⟨value, hvalue, hsets⟩
    | loop headed written =>
      obtain ⟨value, hvalue, hsets, -⟩ := written.object?
      exact ⟨value, hvalue, hsets⟩
  rw [Body.property?, hvalue, Option.bind_some]
  have hrel := hsets.property?_rel key
  generalize properties[key]? = text, value.property? key = found at hrel ⊢
  cases hrel with
  | none => exact .none
  | some h => exact .some h.1

end Preflight
