import Mathlib.Tactic.FinCases
import Preflight.Proofs.Parser.Reads

/-! # Where operands end

An operand is read as it stands if no operator, suffix or arrow goes on after it. Each level of
operators hands on what the tighter ones read. -/

namespace Preflight
set_option autoImplicit false

/-- The operator of the level that a text begins with. -/
def BinaryOp.standing? (text : List Char) (level : List BinaryOp) : Option BinaryOp :=
  level.find? fun op => op.token.toList.isPrefixOf text

/-- Where the token of an operator stands alone, its own level takes it for that operator, and no
tighter level takes it for one of its own. -/
theorem BinaryOp.exists_level (op : BinaryOp) (text : List Char) : ∃ looser level tighter,
    levels = looser ++ level :: tighter ∧
    standing? (op.token.toList ++ ' ' :: text) level = some op ∧
    ∀ l ∈ tighter, standing? (op.token.toList ++ ' ' :: text) l = none := by
  have split (k : Nat) (h : k < levels.length) :
      levels = levels.take k ++ levels[k] :: levels.drop (k + 1) := by
    rw [List.getElem_cons_drop, List.take_append_drop]
  have hk : levels.findIdx (op ∈ ·) < levels.length := by cases op <;> decide
  refine ⟨_, _, _, split (levels.findIdx (op ∈ ·)) hk, ?_, ?_⟩
  · cases op <;> rfl
  · have hall : ((levels.drop (levels.findIdx (op ∈ ·) + 1)).all fun l =>
        (standing? (op.token.toList ++ ' ' :: text) l).isNone) = true := by cases op <;> rfl
    exact fun l hl => Option.isNone_iff_eq_none.mp (List.all_eq_true.mp hall l hl)

/-- After an operand: no arrow makes a parameter list of it, and no suffix goes on with it. -/
structure EndsOperand (rest : List Char) : Prop where
  arrow : "=>".toList.isPrefixOf (rest.dropWhile isBlank) = false
  suffix : ∀ c ∈ (rest.dropWhile isBlank).head?, c ≠ '.' ∧ c ≠ '['

theorem EndsOperand.token (op : BinaryOp) (text : List Char) :
    EndsOperand (' ' :: (op.token.toList ++ ' ' :: text)) where
  arrow := by cases op <;> rfl
  suffix := by cases op <;> exact fun _ hd => Option.mem_some.mp hd ▸ by decide

theorem EndsOperand.question (text : List Char) : EndsOperand (' ' :: '?' :: text) where
  arrow := rfl
  suffix := fun _ hd => Option.mem_some.mp hd ▸ by decide

/-- After an expression: nothing, or what closes or separates. -/
def EndsExpr (rest : List Char) : Prop :=
  ∀ c ∈ (rest.dropWhile isBlank).head?, c ∈ [')', ']', '}', ',', ':']

namespace EndsExpr

variable {rest : List Char}

theorem nil : EndsExpr [] := nofun

theorem cons {c : Char} (h : c ∈ [')', ']', '}', ',', ':']) (text : List Char) :
    EndsExpr (c :: text) := by
  fin_cases h <;> exact fun _ hd => Option.mem_some.mp hd ▸ by decide

theorem blank (h : EndsExpr rest) : EndsExpr (' ' :: rest) := h

/-- What holds of the empty text and of every text that begins with a closing or separating mark
holds of what stands after an expression. -/
theorem elim {P : List Char → Prop} (h : EndsExpr rest) (nothing : P [])
    (mark : ∀ c ∈ [')', ']', '}', ',', ':'], ∀ text, P (c :: text)) :
    P (rest.dropWhile isBlank) := by
  cases hrest : rest.dropWhile isBlank with
  | nil => exact nothing
  | cons c text => exact mark c (h c (by rw [hrest]; rfl)) text

theorem endsOperand (h : EndsExpr rest) : EndsOperand rest where
  arrow := by
    refine h.elim (P := fun text => "=>".toList.isPrefixOf text = false) rfl fun c hc text => ?_
    fin_cases hc <;> rfl
  suffix := by
    refine h.elim (P := fun text => ∀ c ∈ text.head?, c ≠ '.' ∧ c ≠ '[') nofun fun c hc text => ?_
    fin_cases hc <;> exact fun _ hd => Option.mem_some.mp hd ▸ by decide

theorem standing?_eq_none (h : EndsExpr rest) {level : List BinaryOp}
    (hlevel : level ∈ BinaryOp.levels) :
    BinaryOp.standing? (rest.dropWhile isBlank) level = none := by
  refine h.elim (P := fun text => BinaryOp.standing? text level = none) ?_ fun c hc text => ?_
  · fin_cases hlevel <;> rfl
  · fin_cases hc <;> fin_cases hlevel <;> rfl

theorem not_question (h : EndsExpr rest) : (rest.dropWhile isBlank).head? ≠ some '?' := by
  refine h.elim (P := fun text => text.head? ≠ some '?') nofun fun c hc text => ?_
  fin_cases hc <;> exact fun hd => absurd (Option.some.inj hd) (by decide)

theorem not_call (h : EndsExpr rest) : "(".toList.isPrefixOf (rest.dropWhile isBlank) = false := by
  refine h.elim (P := fun text => "(".toList.isPrefixOf text = false) rfl fun c hc text => ?_
  fin_cases hc <;> rfl

/-- What holds of no blank and of none of these marks does not hold of what comes next. -/
theorem head? {p : Char → Bool} (h : EndsExpr rest) (space : p ' ' = false)
    (tab : p '\t' = false) (marks : [')', ']', '}', ',', ':'].any p = false) :
    rest.head?.any p = false := by
  cases rest with
  | nil => rfl
  | cons c cs =>
    show p c = false
    cases hblank : isBlank c with
    | true =>
      rw [isBlank, Bool.or_eq_true, beq_iff_eq, beq_iff_eq] at hblank
      rcases hblank with rfl | rfl
      · exact space
      · exact tab
    | false =>
      refine Bool.eq_false_iff.mpr (List.any_eq_false.mp marks c (h c ?_))
      rw [List.dropWhile_cons_of_neg (by simp [hblank])]
      rfl

theorem stopsName (h : EndsExpr rest) : rest.head?.any isNameChar = false :=
  h.head? rfl rfl rfl

end EndsExpr

namespace Parser

variable {operand expr : Parser Expr} {result : Expr → Prop} {t rest : List Char} {n : Nat}

theorem reads_operator?_none {level : List BinaryOp}
    (h : BinaryOp.standing? (t.dropWhile isBlank) level = none) :
    Reads (operator? level) (Near t) (· = none) (Near t) := by
  refine reads_skipBlanks.bind fun _ _ => reads_rest.bind_eq ?_
  unfold BinaryOp.standing? at h
  rw [h]
  exact Reads.after_imp (.pure rfl) near_dropWhile

theorem reads_operator? {level : List BinaryOp} {op : BinaryOp}
    (ht : t.dropWhile isBlank = op.token.toList ++ rest)
    (h : BinaryOp.standing? (op.token.toList ++ rest) level = some op) :
    Reads (operator? level) (Near t) (· = some op) (· = rest) := by
  refine reads_skipBlanks.bind fun _ _ => reads_rest.bind_eq ?_
  rw [ht]
  unfold BinaryOp.standing? at h
  rw [h]
  refine (reads_skip _).bind fun _ _ => ?_
  rw [← String.length_toList, List.drop_left]
  exact .pure rfl

/-- A chain ends where no operator of its level stands. -/
theorem reads_chain_end {level : List BinaryOp} {lhs : Expr} (start : Nat) (hlhs : result lhs)
    (h : BinaryOp.standing? (rest.dropWhile isBlank) level = none) :
    Reads (chain operand level start n lhs) (Near rest) result (Near rest) := by
  cases n with
  | zero => exact .pure hlhs
  | succ n => exact (reads_operator?_none h).bind_eq (.pure hlhs)

theorem reads_level {level : List BinaryOp} {tighter : List (List BinaryOp)}
    (inner : Reads (binary n operand tighter) (Near t) result (Near rest))
    (h : BinaryOp.standing? (rest.dropWhile isBlank) level = none) :
    Reads (binary n operand (level :: tighter)) (Near t) result (Near rest) := by
  refine reads_start fun start => ?_
  exact inner.from_blanks.bind fun lhs hlhs => reads_chain_end start hlhs h

theorem reads_levels {looser tighter : List (List BinaryOp)}
    (inner : Reads (binary n operand tighter) (Near t) result (Near rest))
    (h : ∀ level ∈ looser, BinaryOp.standing? (rest.dropWhile isBlank) level = none) :
    Reads (binary n operand (looser ++ tighter)) (Near t) result (Near rest) := by
  induction looser with
  | nil => exact inner
  | cons level looser ih =>
    rw [List.forall_mem_cons] at h
    exact reads_level (ih h.2) h.1

/-- Where no sign stands, an operand does. -/
theorem reads_prefixed (inner : Reads operand (Near t) result (Near rest))
    (h : UnaryOp.at? (t.dropWhile isBlank) = none) :
    Reads (prefixed operand n) (Near t) result (Near rest) := by
  cases n with
  | zero => exact inner
  | succ n =>
    refine reads_start fun start => ?_
    refine reads_rest.bind_eq ?_
    rw [h]
    exact inner.from_blanks

theorem reads_suffixes_end {base : Expr} {m : Nat} (start : Nat) (hbase : result base)
    (h : EndsOperand rest) :
    Reads (suffixes m expr start n base) (Near rest) result (Near rest) := by
  cases n with
  | zero => exact .pure hbase
  | succ n =>
    refine reads_skipBlanks.bind fun _ _ => reads_rest.bind_eq ?_
    split
    next text hrest => exact absurd rfl (h.suffix '.' (by rw [hrest]; rfl)).1
    next text hrest => exact absurd rfl (h.suffix '[' (by rw [hrest]; rfl)).2
    next => exact Reads.after_imp (.pure hbase) near_dropWhile

theorem reads_postfixed (inner : Reads (primary n expr) (Near t) result (Near rest))
    (h : EndsOperand rest) : Reads (postfixed n expr) (Near t) result (Near rest) := by
  refine reads_start fun start => ?_
  exact inner.from_blanks.bind fun base hbase => reads_suffixes_end start hbase h

/-- Where no question mark stands, the condition is all. -/
theorem reads_conditional
    (inner : Reads (binary n (prefixed (postfixed n expr) n) BinaryOp.levels) (Near t) result
      (Near rest))
    (h : (rest.dropWhile isBlank).head? ≠ some '?') :
    Reads (conditional n expr) (Near t) result (Near rest) := by
  refine reads_start fun start => ?_
  refine inner.from_blanks.bind fun condition hcondition => reads_skipBlanks.bind fun _ _ => ?_
  refine reads_rest.bind_eq ?_
  rw [if_neg (by simpa using h)]
  exact Reads.after_imp (.pure hcondition) near_dropWhile

end Parser

end Preflight
