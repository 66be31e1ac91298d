import Preflight.Expr

/-! # Chains of operators

Operands with a binary operator between each two of them. The tree of a chain is told from its top:
the rightmost of the loosest operators joins the tree of what stands before it to the tree of what
stands behind it. -/

namespace Preflight
set_option autoImplicit false

/-- How tightly the operator binds its operands. -/
def BinaryOp.precedence : BinaryOp → Nat
  | coalesce => 0
  | or => 1
  | and => 2
  | eq | ne | eqInsensitive | neInsensitive => 3
  | lt | le | gt | ge => 4
  | add | sub => 5
  | mul | div | mod => 6

/-- Operands in order. All but the first have an operator before them. -/
structure Chain (α : Type) where
  first : α
  links : List (BinaryOp × α) := []

namespace Chain

variable {α β : Type}

def map (f : α → β) (chain : Chain α) : Chain β where
  first := f chain.first
  links := chain.links.map fun (op, operand) => (op, f operand)

/-- Operators with the operands behind them, with a blank before and after each operator. -/
def linksText (links : List (BinaryOp × List Char)) : List Char :=
  links.flatMap fun (op, operand) => ' ' :: (op.token.toList ++ ' ' :: operand)

def text (chain : Chain (List Char)) : List Char := chain.first ++ linksText chain.links

def join (lhs : Chain α) (op : BinaryOp) (rhs : Chain α) : Chain α where
  first := lhs.first
  links := lhs.links ++ (op, rhs.first) :: rhs.links

/-- The links before the rightmost of the loosest operators, its own link, and the links behind. -/
def splitLinks? : List (BinaryOp × α) →
    Option (List (BinaryOp × α) × (BinaryOp × α) × List (BinaryOp × α))
  | [] => none
  | link :: links =>
    match splitLinks? links with
    | none => some ([], link, [])
    | some (before, loosest, behind) =>
      if loosest.1.precedence ≤ link.1.precedence then some (link :: before, loosest, behind)
      else some ([], link, links)

/-- What stands on either side of the rightmost of the loosest operators. -/
def split? (chain : Chain α) : Option (Chain α × BinaryOp × Chain α) :=
  (splitLinks? chain.links).map fun (before, (op, operand), behind) =>
    (⟨chain.first, before⟩, op, ⟨operand, behind⟩)

theorem splitLinks?_eq_none_iff {links : List (BinaryOp × α)} :
    splitLinks? links = none ↔ links = [] := by
  cases links with
  | nil => exact iff_of_true rfl rfl
  | cons link links =>
    refine iff_of_false (fun h => ?_) (List.cons_ne_nil link links)
    rw [splitLinks?] at h
    split at h
    · cases h
    · split at h <;> cases h

/-- The operator is no tighter than those before it, and looser than those behind it. -/
theorem of_splitLinks? {links before behind : List (BinaryOp × α)} {loosest : BinaryOp × α}
    (h : splitLinks? links = some (before, loosest, behind)) :
    links = before ++ loosest :: behind ∧
      (∀ link ∈ before, loosest.1.precedence ≤ link.1.precedence) ∧
      ∀ link ∈ behind, loosest.1.precedence < link.1.precedence := by
  induction links generalizing before loosest behind with
  | nil => cases h
  | cons link links ih =>
    rw [splitLinks?] at h
    split at h
    next hnone =>
      cases h
      rw [splitLinks?_eq_none_iff.mp hnone]
      exact ⟨rfl, nofun, nofun⟩
    next before' loosest' behind' hsome =>
      obtain ⟨hlinks, hbefore, hbehind⟩ := ih hsome
      split at h
      next hle =>
        cases h
        exact ⟨congrArg (link :: ·) hlinks, List.forall_mem_cons.mpr ⟨hle, hbefore⟩, hbehind⟩
      next hgt =>
        cases h
        have hlt : link.1.precedence < loosest'.1.precedence := Nat.lt_of_not_le hgt
        refine ⟨rfl, nofun, ?_⟩
        rw [hlinks, List.forall_mem_append, List.forall_mem_cons]
        refine ⟨fun other hother => Nat.lt_of_lt_of_le hlt (hbefore other hother), hlt, ?_⟩
        exact fun other hother => Nat.lt_trans hlt (hbehind other hother)

theorem splitLinks?_append {before behind : List (BinaryOp × α)} {loosest : BinaryOp × α}
    (hbefore : ∀ link ∈ before, loosest.1.precedence ≤ link.1.precedence)
    (hbehind : ∀ link ∈ behind, loosest.1.precedence < link.1.precedence) :
    splitLinks? (before ++ loosest :: behind) = some (before, loosest, behind) := by
  induction before with
  | nil =>
    rw [List.nil_append, splitLinks?]
    cases hsplit : splitLinks? behind with
    | none => rw [splitLinks?_eq_none_iff.mp hsplit]
    | some parts =>
      obtain ⟨before', loosest', behind'⟩ := parts
      obtain ⟨rfl, -, -⟩ := of_splitLinks? hsplit
      have hlt := hbehind loosest' (List.mem_append_right _ List.mem_cons_self)
      exact if_neg (Nat.not_le_of_lt hlt)
  | cons link before ih =>
    rw [List.forall_mem_cons] at hbefore
    rw [List.cons_append, splitLinks?, ih hbefore.2]
    exact if_pos hbefore.1

theorem split?_eq_some_iff {chain lhs rhs : Chain α} {op : BinaryOp} :
    chain.split? = some (lhs, op, rhs) ↔ chain = lhs.join op rhs ∧
      (∀ link ∈ lhs.links, op.precedence ≤ link.1.precedence) ∧
      ∀ link ∈ rhs.links, op.precedence < link.1.precedence := by
  constructor
  · intro h
    obtain ⟨⟨before, ⟨op', operand⟩, behind⟩, hsplit, heq⟩ := Option.map_eq_some_iff.mp h
    cases heq
    obtain ⟨hlinks, hbefore, hbehind⟩ := of_splitLinks? hsplit
    exact ⟨congrArg (Chain.mk chain.first) hlinks, hbefore, hbehind⟩
  · rintro ⟨rfl, hbefore, hbehind⟩
    have hsplit : splitLinks? (lhs.links ++ (op, rhs.first) :: rhs.links) =
        some (lhs.links, (op, rhs.first), rhs.links) :=
      splitLinks?_append hbefore hbehind
    exact congrArg (Option.map _) hsplit

theorem length_of_split? {chain lhs rhs : Chain α} {op : BinaryOp}
    (h : chain.split? = some (lhs, op, rhs)) :
    lhs.links.length < chain.links.length ∧ rhs.links.length < chain.links.length := by
  obtain ⟨rfl, -, -⟩ := split?_eq_some_iff.mp h
  rw [join, List.length_append, List.length_cons]
  omega

/-- Both sides of the operator that the chain is split at are treated the same way. -/
def tree (chain : Chain Expr) : Expr :=
  match h : chain.split? with
  | none => chain.first
  | some (lhs, op, rhs) =>
    have := length_of_split? h
    .binary {} op lhs.tree rhs.tree
termination_by chain.links.length

theorem tree_single (e : Expr) : tree ⟨e, []⟩ = e := by
  rw [tree]
  rfl

theorem tree_join {lhs rhs : Chain Expr} {op : BinaryOp}
    (hlhs : ∀ link ∈ lhs.links, op.precedence ≤ link.1.precedence)
    (hrhs : ∀ link ∈ rhs.links, op.precedence < link.1.precedence) :
    (lhs.join op rhs).tree = .binary {} op lhs.tree rhs.tree := by
  have hsplit := split?_eq_some_iff.mpr ⟨rfl, hlhs, hrhs⟩
  rw [tree]
  split
  next hnone => cases hnone.symm.trans hsplit
  next lhs' op' rhs' hsome =>
    cases hsome.symm.trans hsplit
    rfl

end Chain

end Preflight
