import Preflight.Proofs.Layout.OwnText
import Preflight.Proofs.Parser.GoingOnOperands

/-! # Expressions read on

Suffixes and operators end where the text of an expression ends, since nothing that may stand after
it is taken for one. So an accepted text is read the same inside a longer one. -/

namespace Preflight
set_option autoImplicit false

variable {u text : List Char}

theorem EndsExpr.dropWhile (h : EndsExpr u) : EndsExpr (u.dropWhile isBlank) :=
  h.of_near (near_dropWhile _ rfl)

theorem UnaryOp.at?_append (hu : EndsExpr u) (text : List Char) : at? (text ++ u) = at? text := by
  cases text with
  | nil =>
    cases u with
    | nil => rfl
    | cons c u =>
      have hnot : c ≠ '!' := by simpa using hu.head? (p := (· == '!')) rfl rfl rfl
      have hminus : c ≠ '-' := by simpa using hu.head? (p := (· == '-')) rfl rfl rfl
      exact Parser.at?_eq_none u hnot hminus
  | cons c text =>
    by_cases hnot : c = '!'
    · subst hnot
      rfl
    by_cases hminus : c = '-'
    · subst hminus
      have hdigit : u.head?.any Char.isDigit = false := hu.head? rfl rfl rfl
      show (if (text ++ u).head?.any Char.isDigit then none else some UnaryOp.minus) = _
      rw [head?_any_append text hdigit]
      rfl
    · rw [List.cons_append, Parser.at?_eq_none _ hnot hminus, Parser.at?_eq_none _ hnot hminus]

theorem BinaryOp.isOpening_token (op : BinaryOp) : isOpening op.token := by
  cases op <;> decide

theorem BinaryOp.standing?_append (hu : EndsExpr u) (text : List Char) (level : List BinaryOp) :
    standing? (text ++ u) level = standing? text level := by
  have htokens : (fun op : BinaryOp => op.token.toList.isPrefixOf (text ++ u)) =
      fun op => op.token.toList.isPrefixOf text := by
    funext op
    exact isPrefixOf_append text (hu.head?_opening op.isOpening_token)
  rw [standing?, htokens]
  rfl

namespace Parser

variable {expr operand : Parser Expr}

/-! ## Loops -/

/-- What joins on is the same where the text goes on. -/
def ExtendsTurns (u : List Char) (more? more?' : Expr → Parser (Option Expr)) : Prop :=
  ∀ text e e', e'.erase = e.erase → Extends u text (more? e) (more?' e') (Option.map Expr.erase)

theorem extends_grow {more? more?' : Expr → Parser (Option Expr)}
    (turns : ExtendsTurns u more? more?') {e e' : Expr} (he : e'.erase = e.erase) (n : Nat) :
    Extends u text (grow more? n e) (grow more?' n e') Expr.erase := by
  induction n generalizing text e e' with
  | zero => exact .pure he
  | succ n ih =>
    refine (turns text e e' he).bind fun x x' rest hx => ?_
    cases x with
    | none =>
      obtain rfl : x' = none := Option.map_eq_none_iff.mp hx
      exact .pure he
    | some x =>
      obtain ⟨y, rfl, hy⟩ := Option.map_eq_some_iff.mp hx
      exact ih hy

theorem extends_joined {first : Parser Expr} {more? : Nat → Expr → Parser (Option Expr)}
    (inner : ∀ text, Extends u text first first Expr.erase)
    (turns : ∀ start start', ExtendsTurns u (more? start) (more? start')) (n : Nat) :
    Extends u text (joined first more? n) (joined first more? n) Expr.erase := by
  refine .start_bind fun start start' => (inner _).bind fun e e' rest he => ?_
  exact extends_grow (turns start start') he n

/-! ## Suffixes -/

theorem extends_someNode {f g : Node → Expr} (start start' : Nat)
    (h : ∀ n n', (g n').erase = (f n).erase) :
    Extends u text (do return some (f (← node start))) (do return some (g (← node start')))
      (Option.map Expr.erase) :=
  .still_bind (still_node start) (still_node start') fun n n' _ _ =>
    .pure (congrArg some (h n n'))

/-- What starts a text is in it already where the text that follows does not start so. -/
theorem exists_eq_cons_of_append {c : Char} {chars u tail : List Char}
    (hu : u.head?.any (· == c) = false) (h : chars ++ u = c :: tail) :
    ∃ more, chars = c :: more := by
  cases chars with
  | nil =>
    rw [List.nil_append] at h
    simp [h] at hu
  | cons d chars => exact ⟨chars, congrArg (· :: chars) (List.cons.inj h).1⟩

theorem extends_suffix? (inner : ExtendsNested u expr) (n start start' : Nat) :
    ExtendsTurns u (suffix? n expr start) (suffix? n expr start') := by
  intro text e e' he
  refine .blanks_bind (.rest_bind fun u' hu' => ?_)
  generalize text.dropWhile isBlank = chars
  have hdot : u'.head?.any (· == '.') = false := hu'.head? rfl rfl rfl
  have hbracket : u'.head?.any (· == '[') = false := hu'.head? rfl rfl rfl
  split
  next chars =>
    refine .skip_one_bind (extends_name?.bind fun v v' rest hv => ?_)
    cases v with
    | none =>
      obtain rfl : v' = none := Option.map_eq_none_iff.mp hv
      exact .still_bind still_column still_column fun _ _ _ _ => .throw
    | some v =>
      obtain ⟨v', rfl, hname⟩ := Option.map_eq_some_iff.mp hv
      refine .eat_bind (by decide) (fun rest' _ => ?_) ?_
      · refine (extends_list inner rfl n).bind fun args args' rest'' hargs => ?_
        refine extends_someNode start start' fun n n' => ?_
        rw [Expr.erase_method, Expr.erase_method, he, hname, hargs]
      · refine extends_someNode start start' fun n n' => ?_
        rw [hname]
        exact congrArg (Expr.member {} · v.name) he
  next chars =>
    refine .skip_one_bind ((inner.reads_on chars).bind fun key key' rest hkey => ?_)
    refine .expect_bind fun rest' _ => extends_someNode start start' fun n n' => ?_
    exact congrArg₂ (Expr.subscript {}) he hkey
  next hmember hsubscript =>
    -- what the text goes on with begins no suffix either
    split
    next tail heq =>
      obtain ⟨more, rfl⟩ := exists_eq_cons_of_append hdot heq
      exact absurd rfl (hmember more)
    next tail heq =>
      obtain ⟨more, rfl⟩ := exists_eq_cons_of_append hbracket heq
      exact absurd rfl (hsubscript more)
    next => exact .pure rfl

theorem extends_postfixed (inner : ExtendsNested u expr) (n : Nat) :
    Extends u text (postfixed n expr) (postfixed n expr) Expr.erase := by
  rw [postfixed_eq_joined]
  exact extends_joined (fun text => extends_primary inner n) (extends_suffix? inner n) n

/-! ## Operators -/

theorem extends_prefixed (inner : ∀ text, Extends u text operand operand Expr.erase) (n : Nat) :
    Extends u text (prefixed operand n) (prefixed operand n) Expr.erase := by
  induction n generalizing text with
  | zero => exact inner text
  | succ n ih =>
    refine .start_bind fun start start' => .rest_bind fun u' hu' => ?_
    rw [UnaryOp.at?_append hu']
    generalize text.dropWhile isBlank = chars
    cases hop : UnaryOp.at? chars with
    | none => exact inner chars
    | some op =>
      obtain ⟨c, chars, rfl⟩ := List.exists_cons_of_ne_nil (UnaryOp.leadWord_of_at? hop).2
      refine .skip_one_bind (ih.bind fun e e' rest he => extends_node start start' fun n n' => ?_)
      exact congrArg (Expr.unary {} op) he

theorem extends_operator? (level : List BinaryOp) :
    Extends u text (operator? level) (operator? level) id := by
  refine .blanks_bind (.rest_bind fun u' hu' => ?_)
  have hsame := BinaryOp.standing?_append hu' (text.dropWhile isBlank) level
  unfold BinaryOp.standing? at hsame
  rw [hsame]
  split
  next => exact .pure rfl
  next op found =>
    have hfront := List.find?_some (p := fun op : BinaryOp =>
      op.token.toList.isPrefixOf (text.dropWhile isBlank)) found
    refine .skip_bind ?_ (.pure rfl)
    rw [← String.length_toList]
    exact (List.isPrefixOf_iff_prefix.mp hfront).length_le

theorem extends_link? (inner : ∀ text, Extends u text operand operand Expr.erase)
    (level : List BinaryOp) (start start' : Nat) :
    ExtendsTurns u (link? operand level start) (link? operand level start') := by
  intro text e e' he
  refine (extends_operator? level).bind fun op op' rest hop => ?_
  obtain rfl : op' = op := hop
  cases op' with
  | none => exact .pure rfl
  | some op =>
    refine (inner rest).bind fun rhs rhs' rest' hrhs => ?_
    refine extends_someNode start start' fun n n' => ?_
    exact congrArg₂ (Expr.binary {} op) he hrhs

theorem extends_binary (inner : ∀ text, Extends u text operand operand Expr.erase) (n : Nat)
    (levels : List (List BinaryOp)) :
    Extends u text (binary n operand levels) (binary n operand levels) Expr.erase := by
  induction levels generalizing text with
  | nil => exact inner text
  | cons level tighter ih =>
    rw [binary_cons_eq_joined]
    exact extends_joined (fun _ => ih) (extends_link? (fun _ => ih) level) n

theorem extends_conditional (inner : ExtendsNested u expr) (n : Nat) :
    Extends u text (conditional n expr) (conditional n expr) Expr.erase := by
  have signed (text : List Char) : Extends u text (prefixed (postfixed n expr) n)
      (prefixed (postfixed n expr) n) Expr.erase :=
    extends_prefixed (fun _ => extends_postfixed inner n) n
  refine .start_bind fun start start' => (extends_binary signed n _).bind ?_
  intro condition condition' rest hcondition
  refine .blanks_bind (.rest_bind fun u' hu' => ?_)
  have hmark : u'.head?.any (· == '?') = false := hu'.head? rfl rfl rfl
  rw [head?_beq_append _ hmark]
  generalize rest.dropWhile isBlank = chars
  split
  next hquestion =>
    obtain ⟨tail, rfl⟩ := List.head?_eq_some_iff.mp (beq_iff_eq.mp hquestion)
    refine .skip_one_bind ((inner.reads_on tail).bind fun ifTrue ifTrue' rest hthen => ?_)
    refine .expect_bind fun rest' _ => ?_
    refine (inner.reads_on rest').bind fun ifFalse ifFalse' _ helse => ?_
    refine extends_node start start' fun n n' => ?_
    show Expr.ternary {} condition'.erase ifTrue'.erase ifFalse'.erase = _
    rw [hcondition, hthen, helse]
    rfl
  next => exact .pure hcondition

/-! ## Where nothing is read -/

theorem failsOn_postfixed (h : EndsExpr text) (n : Nat) : FailsOn text (postfixed n expr) :=
  .skipBlanks_bind (.offset_bind fun _ => (failsOn_primary h.dropWhile n).bind)

theorem failsOn_prefixed (h : EndsExpr text) (inner : ∀ text, EndsExpr text → FailsOn text operand)
    (n : Nat) : FailsOn text (prefixed operand n) := by
  cases n with
  | zero => exact inner text h
  | succ n =>
    refine .skipBlanks_bind (.offset_bind fun start => .rest_bind ?_)
    have hsign : UnaryOp.at? (text.dropWhile isBlank) = none := by
      have happend := UnaryOp.at?_append h.dropWhile []
      rwa [List.nil_append] at happend
    rw [hsign]
    exact inner _ h.dropWhile

theorem failsOn_binary (h : EndsExpr text) (inner : ∀ text, EndsExpr text → FailsOn text operand)
    (n : Nat) (levels : List (List BinaryOp)) : FailsOn text (binary n operand levels) := by
  induction levels generalizing text with
  | nil => exact inner text h
  | cons level tighter ih => exact .skipBlanks_bind (.offset_bind fun _ => (ih h.dropWhile).bind)

theorem failsOn_conditional (h : EndsExpr text) (n : Nat) : FailsOn text (conditional n expr) := by
  have signed (text : List Char) (h : EndsExpr text) :
      FailsOn text (prefixed (postfixed n expr) n) :=
    failsOn_prefixed h (fun _ h => failsOn_postfixed h n) n
  exact .skipBlanks_bind (.offset_bind fun _ => (failsOn_binary h.dropWhile signed n _).bind)

/-! ## Expressions -/

/-- A name is read up to its end, whether it is a word for a literal or not. -/
theorem reads_conditional_bareName {x : String} {rest : List Char} (hx : isName x)
    (hrest : EndsExpr rest) (n : Nat) :
    Reads (conditional n expr) (Near (x.toList ++ rest)) (fun _ => True) (Near rest) := by
  cases hkeyword : isKeyword x with
  | false =>
    have read : Rereads (conditional n expr) (.var {} x) := rereads_var hx hkeyword
    exact (read rest hrest).result_imp fun _ _ => trivial
  | true =>
    have bool (b : Bool) : Rereads (conditional n expr) (.bool {} b) := rereads_bool
    have null : Rereads (conditional n expr) (.null {}) := rereads_null
    have hwords : x = "true" ∨ x = "false" ∨ x = "null" := by simpa [isKeyword] using hkeyword
    rcases hwords with rfl | rfl | rfl
    · exact (bool true rest hrest).result_imp fun _ _ => trivial
    · exact (bool false rest hrest).result_imp fun _ _ => trivial
    · exact (null rest hrest).result_imp fun _ _ => trivial

theorem stops_conditional (n : Nat) : Stops (conditional n expr) where
  fails text h := failsOn_conditional h n
  name c e c' x rest run hx hnear hrest := by
    obtain ⟨e', c'', run', -, hc''⟩ := reads_conditional_bareName hx hrest n c hnear
    cases run'.symm.trans run
    exact hc''

/-- What was read from a text is read where the text goes on. -/
theorem extendsNested_expr (u : List Char) (n : Nat) : ExtendsNested u (Parser.expr n) := by
  induction n with
  | zero =>
    refine ⟨⟨fun _ _ => .throw, ?_⟩, fun _ => .throw⟩
    intro c e c' x rest run
    cases run
  | succ n ih => exact ⟨stops_conditional (n + 1), fun text => extends_conditional ih (n + 1)⟩

end Parser

end Preflight
