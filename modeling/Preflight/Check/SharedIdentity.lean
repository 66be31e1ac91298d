import Preflight.Deployment.Grouping
import Preflight.Deployment.Identity
import Preflight.Diagnostic

/-! # Shared identities

Resources, or modules, that share a deployment identity are reported together. -/

namespace Preflight
set_option autoImplicit false

def reportDuplicates {α : Type} [BEq α] [Hashable α] (items : List α)
    (report : List α → α → Diagnostic) : List Diagnostic :=
  (Grouping.ofList items).duplicates.flatMap fun group => group.map (report group)

namespace Model

/-- Each member of a group is reported at its name, with the symbolic names of the whole group. -/
def duplicateNames (m : Model) (resourceScopes moduleScopes : Scopes) : List Diagnostic :=
  reportDuplicates (m.resourceIdentities resourceScopes) (fun group r =>
    .duplicateResources r.nameValue.span (group.map (·.name))) ++
  reportDuplicates (m.moduleIdentities moduleScopes) fun group d =>
    .duplicateModules d.nameValue.span (group.map (·.name))

end Model

end Preflight
