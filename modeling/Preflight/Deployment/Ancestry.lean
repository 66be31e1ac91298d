import Preflight.Symbol

/-! # Ancestors

The chain of resources that a resource belongs to. -/

namespace Preflight
set_option autoImplicit false

inductive AncestorKind where
  | nested
  | parentProperty
deriving DecidableEq, Repr

structure Ancestor where
  resource : SymbolId
  kind : AncestorKind
deriving DecidableEq, Repr

/-- The ancestors of each resource, nearest first. -/
structure Ancestry where
  chains : Std.TreeMap SymbolId (List Ancestor) := {}

namespace Ancestry

def insert (ancestry : Ancestry) (resource : SymbolId) (chain : List Ancestor) :
    Ancestry :=
  { chains := ancestry.chains.insert resource chain }

def ancestors (ancestry : Ancestry) (resource : SymbolId) : List Ancestor :=
  ancestry.chains.getD resource []

def nearest? (ancestry : Ancestry) (resource : SymbolId) : Option Ancestor :=
  (ancestry.ancestors resource).head?

@[simp] theorem ancestors_empty (resource : SymbolId) :
    ({} : Ancestry).ancestors resource = [] := by
  simp [ancestors]

theorem ancestors_insert (ancestry : Ancestry) (resource other : SymbolId)
    (chain : List Ancestor) :
    (ancestry.insert resource chain).ancestors other =
      if resource = other then chain else ancestry.ancestors other := by
  simp [ancestors, insert, Std.TreeMap.getD_insert]

end Ancestry

end Preflight
