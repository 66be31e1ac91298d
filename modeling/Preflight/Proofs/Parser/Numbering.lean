import Preflight.Parser.Expression
import Preflight.Proofs.Numbering

/-! # The numbering of parsed expressions

Every rule of the expression parser numbers the tree that it returns. A quoted key draws an index
that no tree holds; nothing else is drawn in vain. -/

namespace Preflight
set_option autoImplicit false

namespace Parser

variable {before : List Nat}

/-! ## Rules that draw no index -/

theorem quiet_rest : Quiet Cursor.next rest := .read Cursor.rest

theorem quiet_offset : Quiet Cursor.next offset := .read Cursor.offset

theorem quiet_column : Quiet Cursor.next column := quiet_offset.bind fun _ => .pure _

theorem quiet_skip (n : Nat) : Quiet Cursor.next (skip n) := .modify fun _ => rfl

theorem quiet_skipBlanks : Quiet Cursor.next skipBlanks := quiet_rest.bind fun _ => quiet_skip _

theorem quiet_eat (token : String) : Quiet Cursor.next (eat token) := by
  refine quiet_skipBlanks.bind fun _ => quiet_rest.bind fun text => ?_
  split
  · exact (quiet_skip _).bind fun _ => .pure _
  · exact .pure _

theorem quiet_expect (token : String) : Quiet Cursor.next (expect token) := by
  refine (quiet_eat token).bind fun found => ?_
  split
  · exact .pure _
  · exact quiet_column.bind fun _ => .throw _

theorem quiet_atKeyword (word : String) : Quiet Cursor.next (atKeyword word) :=
  quiet_rest.bind fun _ => .pure _

theorem quiet_spanFrom (start : Nat) : Quiet Cursor.next (spanFrom start) :=
  quiet_offset.bind fun _ => .pure _

theorem quiet_name? : Quiet Cursor.next name? := by
  refine quiet_skipBlanks.bind fun _ => quiet_offset.bind fun _ => quiet_rest.bind fun text => ?_
  split
  · exact (quiet_skip _).bind fun _ => (quiet_spanFrom _).bind fun _ => .pure _
  · exact .pure _

theorem quiet_moreParameters (n : Nat) : Quiet Cursor.next (moreParameters n) := by
  induction n with
  | zero => exact .pure _
  | succ n ih =>
    refine quiet_name?.bind fun name => ?_
    cases name with
    | none => exact .pure _
    | some name =>
      refine (quiet_eat ")").bind fun closed => ?_
      split
      · exact .pure _
      · refine (quiet_eat ",").bind fun more => ?_
        split
        · exact ih.bind fun _ => .pure _
        · exact .pure _

theorem quiet_parameters? (n : Nat) : Quiet Cursor.next (parameters? n) := by
  intro before first
  refine Ensures.get_bind fun c hc => ?_
  refine (quiet_skip 1 before first).bind fun _ => (quiet_eat ")" before first).bind fun empty => ?_
  extract_lets close
  have hclose : ∀ params, Ensures (fun s => Ascending first s.next before) (close params)
      fun _ s => Ascending first s.next before := by
    intro params
    refine (quiet_eat "=>" before first).bind fun arrow => ?_
    split
    · exact Ensures.pure fun _ hs => hs
    · -- the counter is put back to what it was, which `hc` knows to be in order
      exact (Ensures.set fun _ _ => hc).bind fun _ => Ensures.pure fun _ hs => hs
  split
  · exact (Ensures.pure fun _ hs => hs).bind hclose
  · exact (quiet_moreParameters n before first).bind hclose

theorem quiet_loopVariable : Quiet Cursor.next loopVariable := by
  refine quiet_skipBlanks.bind fun _ => quiet_column.bind fun _ => quiet_name?.bind fun name => ?_
  cases name with
  | none => exact .throw _
  | some name => exact .pure _

theorem quiet_loopVariables : Quiet Cursor.next loopVariables := by
  refine (quiet_eat "(").bind fun several => ?_
  split
  · refine quiet_loopVariable.bind fun _ => (quiet_expect ",").bind fun _ => ?_
    exact quiet_loopVariable.bind fun _ => (quiet_expect ")").bind fun _ => .pure _
  · exact quiet_loopVariable.bind fun _ => .pure _

theorem quiet_operator? (level : List BinaryOp) : Quiet Cursor.next (operator? level) := by
  refine quiet_skipBlanks.bind fun _ => quiet_rest.bind fun text => ?_
  split
  · exact .pure _
  · exact (quiet_skip _).bind fun _ => .pure _

/-! ## Rules that number what they return -/

theorem draws_freshIndex : Draws Cursor.next freshIndex fun i => [i] := .modifyGet fun _ => rfl

theorem draws_node (start : Nat) : Draws Cursor.next (node start) fun n => [n.index] := by
  intro before
  refine (quiet_spanFrom start before).bind fun span => ?_
  exact (draws_freshIndex before).bind fun i => .pure rfl

theorem draws_declare (v : NameAt) : Draws Cursor.next (declare v) fun x => [x.node.index] := by
  intro before
  exact (draws_freshIndex before).bind fun i => .pure rfl

/-- The node of a tree is numbered after everything in it. -/
theorem numbers_finish (start : Nat) {own : List Nat} {build : Node → Expr}
    (h : ∀ n, (build n).indices = own ++ [n.index]) :
    Numbers Cursor.next (before ++ own) (do return build (← node start)) fun e =>
      before ++ e.indices := by
  refine (draws_node start _).bind fun n => .pure ?_
  rw [h, List.append_assoc]

theorem numbers_leaf (start : Nat) {build : Node → Expr}
    (h : ∀ n, (build n).indices = [n.index]) :
    Numbers Cursor.next before (do return build (← node start)) fun e => before ++ e.indices := by
  have finish : Numbers Cursor.next (before ++ []) (do return build (← node start)) fun e =>
      before ++ e.indices := numbers_finish start h
  rwa [List.append_nil] at finish

theorem draws_integer : Draws Cursor.next integer Expr.indices := by
  intro before
  refine (quiet_offset before).bind fun start => (quiet_rest before).bind fun text => ?_
  -- `digits` is what follows the sign, if there is one
  extract_lets negative digits
  have hdigits : ∀ u, Numbers Cursor.next before (digits u) fun e => before ++ e.indices := by
    intro u
    refine (quiet_rest before).bind fun text => (quiet_skip _ before).bind fun _ => ?_
    dsimp only
    split
    all_goals
      split
      · exact numbers_leaf start fun _ => rfl
      · exact Numbers.throw.bind fun _ => numbers_leaf start fun _ => rfl
  split
  · exact (quiet_skip 1 before).bind hdigits
  · exact (Quiet.pure () before).bind hdigits

section

variable {parse : Parser Expr} (hparse : Draws Cursor.next parse Expr.indices)
include hparse

theorem draws_segments (start n : Nat) :
    Draws Cursor.next (segments parse start n) fun r => Expr.indicesAll r.2 := by
  induction n with
  | zero => exact fun _ => .throw
  | succ n ih =>
    intro before
    refine (quiet_rest before).bind fun text => ?_
    refine (quiet_skip _ before).bind fun _ => ?_
    split
    · exact .throw
    · exact (quiet_offset before).bind fun _ => .throw
    · exact .pure (List.append_nil before).symm
    · refine (hparse before).bind fun hole => ?_
      refine (quiet_expect _ _).bind fun _ => ?_
      refine (ih _).bind fun r => .pure ?_
      simp [Expr.indicesAll]

theorem draws_string (n : Nat) : Draws Cursor.next (string n parse) Expr.indices := by
  intro before
  refine (quiet_offset before).bind fun start => (quiet_skip 1 before).bind fun _ => ?_
  refine (draws_segments hparse start n before).bind fun r => ?_
  exact numbers_finish start fun _ => rfl

theorem draws_items (close : String) (n : Nat) :
    Draws Cursor.next (items parse close n) Expr.indicesAll := by
  induction n with
  | zero => exact fun _ => .throw
  | succ n ih =>
    intro before
    refine (hparse before).bind fun item => (quiet_eat close _).bind fun closed => ?_
    split
    · exact .pure (by simp [Expr.indicesAll])
    · refine (quiet_expect "," _).bind fun _ => (ih _).bind fun items => .pure ?_
      simp [Expr.indicesAll]

theorem draws_list (n : Nat) (close : String) :
    Draws Cursor.next (list n parse close) Expr.indicesAll := by
  intro before
  refine (quiet_eat close before).bind fun closed => ?_
  split
  · exact .pure (List.append_nil before).symm
  · exact draws_items hparse close n before

theorem draws_lambda (start : Nat) (params : List NameAt) :
    Draws Cursor.next (lambda parse start params) Expr.indices := by
  intro before
  refine (Draws.mapM (fun v _ => draws_declare v) before).bind fun vars => ?_
  refine (hparse _).bind fun body => ?_
  rw [List.append_assoc]
  refine numbers_finish start fun n => ?_
  rw [Expr.indices, LocalVar.indices, List.map_eq_flatMap]

theorem draws_parenthesized (n : Nat) : Draws Cursor.next (parenthesized n parse) Expr.indices := by
  intro before
  refine (quiet_offset before).bind fun start => (quiet_parameters? n before).bind fun params => ?_
  cases params with
  | some params => exact draws_lambda hparse start params before
  | none =>
    refine (quiet_skip 1 before).bind fun _ => (hparse before).bind fun inner => ?_
    exact (quiet_expect ")" _).bind fun _ => .pure rfl

theorem draws_loop (start : Nat) : Draws Cursor.next (loop parse start) Expr.indices := by
  intro before
  refine (quiet_loopVariables before).bind fun vars => (quiet_skipBlanks before).bind fun _ => ?_
  refine (quiet_atKeyword "in" before).bind fun found => ?_
  -- `body` is what follows once the keyword is found
  extract_lets body
  have hbody : ∀ u, Numbers Cursor.next before (body u) fun e => before ++ e.indices := by
    intro u
    refine (quiet_skip _ before).bind fun _ => (hparse before).bind fun collection => ?_
    refine (quiet_expect ":" _).bind fun _ => (draws_declare vars.1 _).bind fun item => ?_
    refine (Draws.mapM_option draws_declare vars.2 _).bind fun index => ?_
    refine (hparse _).bind fun body => ?_
    refine (quiet_expect "]" _).bind fun _ => ?_
    simp only [List.append_assoc]
    refine numbers_finish start fun n => ?_
    simp [Expr.indices, LocalVar.indices, List.map_eq_flatMap]
  split
  · exact (Quiet.pure () before).bind hbody
  · exact (quiet_column before).bind fun _ => .throw

theorem draws_arrayOrLoop (n : Nat) : Draws Cursor.next (arrayOrLoop n parse) Expr.indices := by
  intro before
  refine (quiet_offset before).bind fun start => (quiet_skip 1 before).bind fun _ => ?_
  refine (quiet_skipBlanks before).bind fun _ => (quiet_atKeyword "for" before).bind fun found => ?_
  split
  · exact (quiet_skip _ before).bind fun _ => draws_loop hparse start before
  · refine (draws_list hparse n "]" before).bind fun items => ?_
    exact numbers_finish start fun _ => rfl

/-- The index of a quoted key is lost. -/
theorem quiet_key (n : Nat) : Quiet Cursor.next (key n parse) := by
  intro before
  refine (quiet_skipBlanks before).bind fun _ => (quiet_column before).bind fun column => ?_
  refine (quiet_rest before).bind fun text => ?_
  split
  · refine ((draws_string hparse n before).drop fun e => List.sublist_append_left _ _).bind ?_
    intro e
    cases e.literal? with
    | none => exact .throw
    | some literal => exact .pure rfl
  · refine (quiet_name? before).bind fun name => ?_
    cases name with
    | none => exact .throw
    | some name => exact .pure rfl

theorem draws_properties (n : Nat) : Draws Cursor.next (properties parse n) Expr.indicesIn := by
  induction n with
  | zero => exact fun before => (quiet_column before).bind fun _ => .throw
  | succ n ih =>
    intro before
    refine (quiet_skipBlanks before).bind fun _ => (quiet_offset before).bind fun start => ?_
    refine (quiet_key hparse _ before).bind fun key => (quiet_expect ":" before).bind fun _ => ?_
    refine (hparse before).bind fun value => (quiet_spanFrom start _).bind fun span => ?_
    refine (quiet_eat _ _).bind fun closed => ?_
    split
    · exact .pure (by simp [Expr.indicesIn])
    · refine (quiet_expect "," _).bind fun _ => (ih _).bind fun properties => .pure ?_
      simp [Expr.indicesIn]

theorem draws_object (n : Nat) : Draws Cursor.next (object n parse) Expr.indices := by
  intro before
  refine (quiet_offset before).bind fun start => (quiet_skip 1 before).bind fun _ => ?_
  refine (quiet_eat _ before).bind fun empty => ?_
  extract_lets close
  have hclose : ∀ ps, Numbers Cursor.next (before ++ Expr.indicesIn ps) (close ps) fun e =>
      before ++ e.indices := fun ps => numbers_finish start fun _ => rfl
  split
  · have hnil := hclose []
    rw [Expr.indicesIn, List.append_nil] at hnil
    rwa [pure_bind]
  · exact (draws_properties hparse n before).bind hclose

theorem draws_named (n start : Nat) (name : NameAt) :
    Draws Cursor.next (named n parse start name) Expr.indices := by
  intro before
  unfold named
  split
  · exact numbers_leaf start fun _ => rfl
  · exact numbers_leaf start fun _ => rfl
  · exact numbers_leaf start fun _ => rfl
  · refine (quiet_eat "=>" before).bind fun arrow => ?_
    split
    · exact draws_lambda hparse start [name] before
    · refine (quiet_eat "(" before).bind fun called => ?_
      split
      · refine (draws_list hparse n ")" before).bind fun args => ?_
        exact numbers_finish start fun _ => rfl
      · exact (draws_freshIndex before).bind fun i => .pure rfl

theorem draws_primary (n : Nat) : Draws Cursor.next (primary n parse) Expr.indices := by
  intro before
  refine (quiet_skipBlanks before).bind fun _ => (quiet_offset before).bind fun start => ?_
  refine (quiet_rest before).bind fun text => ?_
  split
  · exact .throw
  · exact draws_string hparse n before
  · exact draws_parenthesized hparse n before
  · exact draws_arrayOrLoop hparse n before
  · exact draws_object hparse n before
  · split
    · exact draws_integer before
    · refine (quiet_name? before).bind fun name => ?_
      cases name with
      | none => exact .throw
      | some name => exact draws_named hparse n start name before

/-- What is put around `base` is numbered after it. -/
theorem numbers_suffixes (m start n : Nat) : ∀ base : Expr,
    Numbers Cursor.next (before ++ base.indices) (suffixes m parse start n base) fun e =>
      before ++ e.indices := by
  induction n with
  | zero => exact fun base => .pure rfl
  | succ n ih =>
    intro base
    refine (quiet_skipBlanks _).bind fun _ => (quiet_rest _).bind fun text => ?_
    split
    · refine (quiet_skip 1 _).bind fun _ => (quiet_name? _).bind fun name => ?_
      cases name with
      | none => exact (quiet_column _).bind fun _ => .throw
      | some name =>
        refine (quiet_eat "(" _).bind fun called => ?_
        split
        · refine (draws_list hparse m ")" _).bind fun args => (draws_node start _).bind fun n => ?_
          simpa [Expr.indices] using ih (.call n (some base) name.name args)
        · refine (draws_node start _).bind fun n => ?_
          simpa [Expr.indices] using ih (.member n base name.name)
    · refine (quiet_skip 1 _).bind fun _ => (hparse _).bind fun key => ?_
      refine (quiet_expect "]" _).bind fun _ => (draws_node start _).bind fun n => ?_
      simpa [Expr.indices] using ih (.subscript n base key)
    · exact .pure rfl

theorem draws_postfixed (n : Nat) : Draws Cursor.next (postfixed n parse) Expr.indices := by
  intro before
  refine (quiet_skipBlanks before).bind fun _ => (quiet_offset before).bind fun start => ?_
  exact (draws_primary hparse n before).bind (numbers_suffixes hparse n start n)

end

section

variable {operand : Parser Expr} (hoperand : Draws Cursor.next operand Expr.indices)
include hoperand

theorem draws_prefixed (n : Nat) : Draws Cursor.next (prefixed operand n) Expr.indices := by
  induction n with
  | zero => exact hoperand
  | succ n ih =>
    intro before
    refine (quiet_skipBlanks before).bind fun _ => (quiet_offset before).bind fun start => ?_
    refine (quiet_rest before).bind fun text => ?_
    split
    · exact hoperand before
    · refine (quiet_skip 1 before).bind fun _ => (ih before).bind fun inner => ?_
      exact numbers_finish start fun _ => rfl

theorem numbers_chain (level : List BinaryOp) (start n : Nat) : ∀ lhs : Expr,
    Numbers Cursor.next (before ++ lhs.indices) (chain operand level start n lhs) fun e =>
      before ++ e.indices := by
  induction n with
  | zero => exact fun lhs => .pure rfl
  | succ n ih =>
    intro lhs
    refine (quiet_operator? level _).bind fun op => ?_
    cases op with
    | none => exact .pure rfl
    | some op =>
      refine (hoperand _).bind fun rhs => (draws_node start _).bind fun n => ?_
      simpa [Expr.indices] using ih (.binary n op lhs rhs)

theorem draws_binary (n : Nat) (levels : List (List BinaryOp)) :
    Draws Cursor.next (binary n operand levels) Expr.indices := by
  induction levels with
  | nil => exact hoperand
  | cons level tighter ih =>
    intro before
    refine (quiet_skipBlanks before).bind fun _ => (quiet_offset before).bind fun start => ?_
    exact (ih before).bind (numbers_chain ih level start n)

end

theorem draws_conditional {parse : Parser Expr} (hparse : Draws Cursor.next parse Expr.indices)
    (n : Nat) : Draws Cursor.next (conditional n parse) Expr.indices := by
  intro before
  refine (quiet_skipBlanks before).bind fun _ => (quiet_offset before).bind fun start => ?_
  have operand := draws_prefixed (draws_postfixed hparse n) n
  refine (draws_binary operand n BinaryOp.levels before).bind fun condition => ?_
  refine (quiet_skipBlanks _).bind fun _ => (quiet_rest _).bind fun text => ?_
  split
  · refine (quiet_skip 1 _).bind fun _ => (hparse _).bind fun ifTrue => ?_
    refine (quiet_expect ":" _).bind fun _ => (hparse _).bind fun ifFalse => ?_
    simp only [List.append_assoc]
    exact numbers_finish start fun n => by simp [Expr.indices]
  · exact .pure rfl

theorem draws_expr (n : Nat) : Draws Cursor.next (expr n) Expr.indices := by
  -- `n` counts how often the knot is untied
  induction n with
  | zero => exact fun _ => .throw
  | succ n ih => exact draws_conditional ih (n + 1)

theorem draws_whole (n : Nat) : Draws Cursor.next (whole n) Expr.indices := by
  intro before
  refine (draws_expr n before).bind fun e => (quiet_skipBlanks _).bind fun _ => ?_
  refine (quiet_rest _).bind fun text => ?_
  split
  · exact .pure rfl
  · exact (quiet_column _).bind fun _ => .throw

end Parser

/-- The indices of a text that is read rise, and the reading counts them all. -/
theorem Reading.ascending_indices {text : String} {reading : Reading}
    (h : Reading.parse text = .ok reading) :
    Ascending 0 reading.indices reading.expr.indices := by
  unfold Reading.parse at h
  dsimp only at h
  split at h
  · cases h
  · cases hr : (Parser.whole text.toList.length).run { rest := text.toList } with
    | error e =>
      rw [hr] at h
      cases h
    | ok r =>
      rw [hr] at h
      cases h
      have start : Ascending 0 (Cursor.mk text.toList 0 0).next [] := Nat.le_refl 0
      exact Parser.draws_whole _ [] 0 _ start _ _ hr

end Preflight
