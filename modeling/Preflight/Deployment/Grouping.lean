import Std.Data.HashMap

/-! # Grouping by equality

Items are gathered into groups of equal items. Groups stand in the order of their first items, and
items in a group in the order in which they came. -/

namespace Preflight
set_option autoImplicit false

structure Grouping (α : Type) [BEq α] [Hashable α] where
  position : Std.HashMap α Nat := {}
  groups : Array (Array α) := #[]

namespace Grouping

variable {α : Type} [BEq α] [Hashable α]

def insert (g : Grouping α) (x : α) : Grouping α :=
  match g.position[x]? with
  | some i => { g with groups := g.groups.modify i (·.push x) }
  | none => {
      position := g.position.insert x g.groups.size
      groups := g.groups.push #[x] }

def ofList (xs : List α) : Grouping α := xs.foldl insert {}

def duplicates (g : Grouping α) : List (List α) :=
  (g.groups.toList.map Array.toList).filter (1 < ·.length)

end Grouping

end Preflight
