import Preflight.Proofs.Parser.Literals

/-! # One node

A node is read back from its text if its children are read back from theirs, in parentheses or as
operands. There is one lemma for each kind of node. -/

namespace Preflight
set_option autoImplicit false

namespace Parser

variable {expr : Parser Expr} {t rest : List Char} {n : Nat}

/-! ## Words and numbers -/

section

variable {result : Expr → Prop} {after : List Char → Prop}

theorem reads_conditional_of_prefixed (hrest : EndsExpr rest)
    (inner : Reads (prefixed (postfixed n expr) n) (Near t) result (Near rest)) :
    Reads (conditional n expr) (Near t) result (Near rest) := by
  refine reads_conditional ?_ hrest.not_question
  rw [← List.append_nil BinaryOp.levels]
  exact reads_levels inner fun level => hrest.standing?_eq_none

theorem reads_conditional_of_postfixed (sign : UnaryOp.at? (t.dropWhile isBlank) = none)
    (hrest : EndsExpr rest) (inner : Reads (postfixed n expr) (Near t) result (Near rest)) :
    Reads (conditional n expr) (Near t) result (Near rest) :=
  reads_conditional_of_prefixed hrest (reads_prefixed inner sign)

theorem reads_conditional_of_primary (sign : UnaryOp.at? (t.dropWhile isBlank) = none)
    (hrest : EndsExpr rest) (inner : Reads (primary n expr) (Near t) result (Near rest)) :
    Reads (conditional n expr) (Near t) result (Near rest) :=
  reads_conditional_of_postfixed sign hrest (reads_postfixed inner hrest.endsOperand)

theorem not_mem_of_any_eq_false {p : Char → Bool} {c : Char} {marks : List Char} (h : p c)
    (hmarks : marks.any p = false) : c ∉ marks :=
  fun hmem => List.any_eq_false.mp hmarks c hmem h

theorem reads_primary_quote {text : List Char}
    (h : Reads (string n expr) (· = '\'' :: text) result after) :
    Reads (primary n expr) (Near ('\'' :: text)) result after :=
  reads_start fun _ => reads_rest.bind_eq h

theorem reads_primary_paren {text : List Char}
    (h : Reads (parenthesized n expr) (· = '(' :: text) result after) :
    Reads (primary n expr) (Near ('(' :: text)) result after :=
  reads_start fun _ => reads_rest.bind_eq h

theorem reads_primary_bracket {text : List Char}
    (h : Reads (arrayOrLoop n expr) (· = '[' :: text) result after) :
    Reads (primary n expr) (Near ('[' :: text)) result after :=
  reads_start fun _ => reads_rest.bind_eq h

theorem reads_primary_brace {text : List Char}
    (h : Reads (object n expr) (· = '{' :: text) result after) :
    Reads (primary n expr) (Near ('{' :: text)) result after :=
  reads_start fun _ => reads_rest.bind_eq h

def isNumberStart (c : Char) : Bool := c.isDigit || c == '-'

/-- What begins with none of the marks: a number or a name. -/
def word (n : Nat) (expr : Parser Expr) (start : Nat) (c : Char) (text : List Char) :
    Parser Expr := do
  if c.isDigit || c == '-' then
    integer
  else
    let some name ← name? | throw (.unexpected (.ofList (c :: text)) (start + 1))
    named n expr start name

/-- The operand that a text begins with, by its first character. -/
def operandAt (n : Nat) (expr : Parser Expr) (start : Nat) : List Char → Parser Expr
  | [] => throw .unexpectedEnd
  | '\'' :: _ => string n expr
  | '(' :: _ => parenthesized n expr
  | '[' :: _ => arrayOrLoop n expr
  | '{' :: _ => object n expr
  | c :: text => word n expr start c text

theorem primary_eq (n : Nat) (expr : Parser Expr) : primary n expr = (do
    skipBlanks
    let start ← offset
    operandAt n expr start (← Parser.rest)) :=
  rfl

theorem operandAt_eq_word {c : Char} (hc : c ∉ ['\'', '(', '[', '{']) (start : Nat)
    (text : List Char) : operandAt n expr start (c :: text) = word n expr start c text := by
  simp only [List.mem_cons, List.not_mem_nil, or_false, not_or] at hc
  obtain ⟨quote, paren, bracket, brace⟩ := hc
  rw [operandAt]
  · exact quote
  · exact paren
  · exact bracket
  · exact brace

/-- Where no mark stands, a number or a name does. -/
theorem reads_primary_word {c : Char} {text : List Char} (ht : t.dropWhile isBlank = c :: text)
    (hc : c ∉ ['\'', '(', '[', '{'])
    (h : ∀ start, Reads (word n expr start c text) (· = c :: text) result after) :
    Reads (primary n expr) (Near t) result after := by
  rw [primary_eq]
  refine reads_start fun start => ?_
  rw [ht]
  refine reads_rest.bind_eq ?_
  rw [operandAt_eq_word hc]
  exact h start

theorem reads_primary_number {c : Char} {text : List Char} (hc : isNumberStart c)
    (h : Reads integer (· = c :: text) result after) :
    Reads (primary n expr) (Near (c :: text)) result after := by
  have ht : (c :: text).dropWhile isBlank = c :: text :=
    List.dropWhile_cons_of_neg (by simp [isBlank_eq_false hc rfl rfl])
  refine reads_primary_word ht (not_mem_of_any_eq_false hc rfl) fun start => ?_
  rw [word, ← isNumberStart, if_pos hc]
  exact h

theorem reads_primary_name {x : String} (hx : isName x) (hrest : rest.head?.any isNameChar = false)
    (h : ∀ start v, v.name = x → Reads (named n expr start v) (· = rest) result after) :
    Reads (primary n expr) (Near (x.toList ++ rest)) result after := by
  obtain ⟨c, cs, hcons, hstart, -⟩ := exists_cons_of_isName hx
  have ht : (x.toList ++ rest).dropWhile isBlank = c :: (cs ++ rest) := by
    rw [dropWhile_name hx, hcons, List.cons_append]
  refine reads_primary_word ht (not_mem_of_any_eq_false hstart rfl) fun start => ?_
  have hnumber : ¬isNumberStart c := by
    rw [isNumberStart, Bool.or_eq_true, beq_iff_eq, not_or]
    refine ⟨fun hdigit => ?_, ne_of_isNameStart hstart rfl⟩
    exact Bool.false_ne_true ((isNameStart_of_isDigit hdigit).symm.trans hstart)
  rw [word, ← isNumberStart, if_neg hnumber]
  have name := (reads_name? hx hrest).from_blanks
  rw [ht] at name
  refine name.bind ?_
  rintro _ ⟨v, rfl, hv⟩
  exact h start v hv

theorem reads_named {start : Nat} {v : NameAt} (h : isKeyword v.name = false)
    (hr : Reads (do
      if ← eat "=>" then
        lambda expr start [v]
      else if ← eat "(" then
        let args ← list n expr ")"
        return .call (← node start) none v.name args
      else
        return .var ⟨v.span, ← freshIndex⟩ v.name) (· = t) result after) :
    Reads (named n expr start v) (· = t) result after := by
  unfold named
  split
  next heq => simp [heq, isKeyword] at h
  next heq => simp [heq, isKeyword] at h
  next heq => simp [heq, isKeyword] at h
  next => exact hr

end

/-! ## One node -/

/-- The parser reads the expression, wherever an expression may end. -/
def Rereads (p : Parser Expr) (e : Expr) : Prop :=
  ∀ rest, EndsExpr rest →
    Reads p (Near (e.render ++ rest)) (fun e' => e'.erase = e.erase) (Near rest)

theorem reads_mapM_declare (vs : List NameAt) (before : List Char → Prop) :
    Reads (vs.mapM declare) before (fun xs => xs.map LocalVar.name = vs.map NameAt.name)
      before := by
  induction vs with
  | nil =>
    rw [List.mapM_nil]
    exact .pure rfl
  | cons v vs ih =>
    rw [List.mapM_cons]
    refine (reads_declare v).bind fun x hx => ih.bind fun xs hxs => .pure ?_
    rw [List.map_cons, List.map_cons, hx, hxs]

variable {node : Node}

theorem rereads_string {segments : List String} {holes : List Expr}
    (hlength : segments.length = holes.length + 1) (inner : ∀ x ∈ holes, Encloses expr x)
    (hn : segments.length ≤ n) : Rereads (conditional n expr) (.string node segments holes) := by
  intro rest hrest
  have text : (Expr.string node segments holes).render ++ rest =
      '\'' :: (Expr.interleave segments (Expr.renderAll holes) ++ '\'' :: rest) := by
    simp [Expr.render]
  rw [text]
  refine reads_conditional_of_primary rfl hrest (reads_primary_quote ?_)
  refine (reads_string hlength inner hn).near_of_at.result_imp ?_
  rintro _ ⟨node', holes', rfl, hholes⟩
  rw [Expr.erase_string, Expr.erase_string, hholes]

theorem at?_eq_none {c : Char} (text : List Char) (not : c ≠ '!') (minus : c ≠ '-') :
    UnaryOp.at? (c :: text) = none := by
  unfold UnaryOp.at?
  split
  next heq => exact absurd (List.cons.inj heq).1 not
  next heq => exact absurd (List.cons.inj heq).1 minus
  next => rfl

theorem dropWhile_number {c : Char} (hc : isNumberStart c) (text : List Char) :
    (c :: text).dropWhile isBlank = c :: text :=
  List.dropWhile_cons_of_neg (by simp [isBlank_eq_false hc rfl rfl])

theorem rereads_int {value : Int} (low : -integerBound ≤ value) (high : value < integerBound) :
    Rereads (conditional n expr) (.int node value) := by
  intro rest hrest
  have integer := reads_integer low high (hrest.head? rfl rfl rfl)
  obtain ⟨c, text, hcons, hc, sign⟩ : ∃ c text, (toString value).toList ++ rest = c :: text ∧
      isNumberStart c ∧ UnaryOp.at? (c :: text) = none := by
    cases value with
    | ofNat k =>
      obtain ⟨c, cs, hcons, hc⟩ := exists_cons_toDigits k
      refine ⟨c, cs ++ rest, ?_, by rw [isNumberStart, hc, Bool.true_or], at?_eq_none _ ?_ ?_⟩
      · rw [Int.ofNat_eq_natCast, toList_toString_ofNat, hcons, List.cons_append]
      · rintro rfl
        exact absurd hc (by decide)
      · rintro rfl
        exact absurd hc (by decide)
    | negSucc k =>
      obtain ⟨c, cs, hcons, hc⟩ := exists_cons_toDigits (k + 1)
      refine ⟨'-', c :: cs ++ rest, ?_, rfl, if_pos hc⟩
      rw [toList_toString_negSucc, hcons, List.cons_append]
  rw [Expr.render, hcons]
  rw [hcons] at integer
  refine reads_conditional_of_primary (by rwa [dropWhile_number hc]) hrest ?_
  refine (reads_primary_number hc integer).near_of_at.result_imp ?_
  rintro _ ⟨node', rfl⟩
  rfl

/-- A name is read as what the rest makes of it. -/
theorem reads_conditional_name {x : String} {result : Expr → Prop} (hx : isName x)
    (hstop : t.head?.any isNameChar = false) (hrest : EndsExpr rest)
    (h : ∀ start v, v.name = x → Reads (named n expr start v) (· = t) result (Near rest)) :
    Reads (conditional n expr) (Near (x.toList ++ t)) result (Near rest) := by
  refine reads_conditional_of_primary ?_ hrest (reads_primary_name hx hstop h)
  obtain ⟨c, cs, hcons, hstart, -⟩ := exists_cons_of_isName hx
  rw [dropWhile_name hx, hcons]
  exact at?_eq_none _ (ne_of_isNameStart hstart rfl) (ne_of_isNameStart hstart rfl)

theorem rereads_bool {value : Bool} : Rereads (conditional n expr) (.bool node value) := by
  intro rest hrest
  cases value with
  | false =>
    refine reads_conditional_name (x := "false") (by decide) hrest.stopsName hrest ?_
    intro start v hv
    rw [named, hv]
    exact (reads_node start).near_of_at.bind fun node' _ => .pure rfl
  | true =>
    refine reads_conditional_name (x := "true") (by decide) hrest.stopsName hrest ?_
    intro start v hv
    rw [named, hv]
    exact (reads_node start).near_of_at.bind fun node' _ => .pure rfl

theorem rereads_null : Rereads (conditional n expr) (.null node) := by
  intro rest hrest
  refine reads_conditional_name (x := "null") (by decide) hrest.stopsName hrest ?_
  intro start v hv
  rw [named, hv]
  exact (reads_node start).near_of_at.bind fun node' _ => .pure rfl

theorem rereads_var {x : String} (hx : isName x) (hkeyword : isKeyword x = false) :
    Rereads (conditional n expr) (.var node x) := by
  intro rest hrest
  refine reads_conditional_name hx hrest.stopsName hrest fun start v hv => ?_
  refine reads_named (by rwa [hv]) ?_
  refine (reads_eat_not _ hrest.endsOperand.arrow).at_of_near.bind_eq ?_
  refine (reads_eat_not _ hrest.not_call).bind_eq ?_
  refine reads_freshIndex.bind fun index _ => .pure ?_
  rw [hv]
  rfl

theorem rereads_call {x : String} {args : List Expr} (hx : isName x)
    (hkeyword : isKeyword x = false) (inner : ∀ arg ∈ args, Encloses expr arg)
    (hn : args.length ≤ n) : Rereads (conditional n expr) (.call node none x args) := by
  intro rest hrest
  have text : (Expr.call node none x args).render ++ rest = x.toList ++
      '(' :: (separate ((Expr.renderAll args).map parenthesize) ++ (")".toList ++ rest)) := by
    simp [Expr.render, parenthesize]
  rw [text]
  refine reads_conditional_name hx rfl hrest fun start v hv => reads_named (by rwa [hv]) ?_
  refine (reads_eat_not "=>" rfl).at_of_near.bind_eq ?_
  refine (reads_eat "(" rfl).bind_eq ?_
  refine (reads_list rfl inner hn).at_of_near.near_of_at.bind fun args' hargs => ?_
  refine (reads_node start).bind fun node' _ => .pure ?_
  rw [Expr.erase_call, Expr.erase_call, hargs, hv]

theorem rereads_array {items : List Expr} (inner : ∀ item ∈ items, Encloses expr item)
    (hn : items.length ≤ n) : Rereads (conditional n expr) (.array node items) := by
  intro rest hrest
  have text : (Expr.array node items).render ++ rest =
      '[' :: (separate ((Expr.renderAll items).map parenthesize) ++ ("]".toList ++ rest)) := by
    simp [Expr.render]
  rw [text]
  have word : "for".toList.isPrefixOf ((separate ((Expr.renderAll items).map parenthesize) ++
      ("]".toList ++ rest)).dropWhile isBlank) = false := by
    cases items with
    | nil => rfl
    | cons item items =>
      obtain ⟨text, htext⟩ := exists_separate_cons (parenthesize item.render)
        ((Expr.renderAll items).map parenthesize)
      rw [Expr.renderAll, List.map_cons, htext]
      rfl
  refine reads_conditional_of_primary rfl hrest (reads_primary_bracket ?_)
  refine reads_offset.bind fun start _ => (reads_skip 1).bind fun _ _ => ?_
  refine reads_skipBlanks.at_of_near.bind fun _ _ => (reads_atKeyword "for").bind_eq ?_
  rw [List.drop_succ_cons, List.drop_zero, word, Bool.false_and, if_neg Bool.false_ne_true]
  refine (reads_list rfl inner hn).from_blanks.near_of_at.bind fun items' hitems => ?_
  refine (reads_node start).bind fun node' _ => .pure ?_
  rw [Expr.erase_array, Expr.erase_array, hitems]

theorem rereads_object {ps : List (Property Expr)} (inner : ∀ p ∈ ps, Encloses expr p.value)
    (hn : ps.length ≤ n) : Rereads (conditional n expr) (.object node ps) := by
  intro rest hrest
  have text : (Expr.object node ps).render ++ rest =
      '{' :: (separate (Expr.renderProperties ps) ++ '}' :: rest) := by
    simp [Expr.render]
  rw [text]
  refine reads_conditional_of_primary rfl hrest (reads_primary_brace ?_)
  refine reads_offset.bind fun start _ => (reads_skip 1).bind fun _ _ => ?_
  cases ps with
  | nil =>
    refine (reads_eat "\x7d" rfl).at_of_near.near_of_at.bind_eq ?_
    refine Reads.bind_eq (.pure rfl) ?_
    exact (reads_node start).bind fun node' _ => .pure rfl
  | cons p ps =>
    have unclosed : Reads (eat "\x7d")
        (· = (separate (Expr.renderProperties (p :: ps)) ++ '}' :: rest)) (· = false)
        (Near (separate (Expr.renderProperties (p :: ps)) ++ '}' :: rest)) := by
      refine (reads_eat_not _ ?_).at_of_near
      obtain ⟨text, htext⟩ := exists_separate_cons (Expr.renderProperty p)
        (ps.map Expr.renderProperty)
      rw [Expr.renderProperties_eq_map, List.map_cons, htext]
      rfl
    refine unclosed.bind_eq ?_
    refine (reads_properties inner hn).near_of_at.bind fun ps' hps => ?_
    refine (reads_node start).bind fun node' _ => .pure ?_
    rw [Expr.erase_object, Expr.erase_object, hps]

/-! ## What begins with an operand -/

/-- The parser reads the expression as an operand: in parentheses, whatever is behind it other than
an arrow. -/
def Opens (p : Parser Expr) (e : Expr) : Prop :=
  ∀ rest, "=>".toList.isPrefixOf (rest.dropWhile isBlank) = false →
    Reads p (Near (parenthesize e.render ++ rest)) (fun e' => e'.erase = e.erase) (· = rest)

/-- An operand in parentheses, among operators of these levels. -/
theorem reads_operand {e : Expr} (levels : List (List BinaryOp)) (k : Nat)
    (he : Opens (primary n expr) e) (ends : EndsOperand rest)
    (h : ∀ level ∈ levels, BinaryOp.standing? (rest.dropWhile isBlank) level = none) :
    Reads (binary n (prefixed (postfixed n expr) k) levels)
      (Near (parenthesize e.render ++ rest)) (fun e' => e'.erase = e.erase) (Near rest) := by
  rw [← List.append_nil levels]
  refine reads_levels (reads_prefixed ?_ rfl) h
  exact reads_postfixed (he rest ends.arrow).near_of_at ends

/-- A suffix on an operand. -/
theorem reads_conditional_suffix {base : Expr} {result : Expr → Prop} (hn : 0 < n)
    (hbase : Opens (primary n expr) base)
    (arrow : "=>".toList.isPrefixOf (t.dropWhile isBlank) = false) (hrest : EndsExpr rest)
    (h : ∀ start m k base', n = m → base'.erase = base.erase →
      Reads (suffixes m expr start (k + 1) base') (· = t) result (Near rest)) :
    Reads (conditional n expr) (Near (parenthesize base.render ++ t)) result (Near rest) := by
  obtain _ | n := n
  · cases hn
  refine reads_conditional_of_postfixed rfl hrest ?_
  refine reads_start fun start => ?_
  exact (hbase t arrow).from_blanks.bind fun base' hbase' => h start _ n base' rfl hbase'

theorem rereads_member {base : Expr} {x : String} (hn : 0 < n)
    (hbase : Opens (primary n expr) base) (hx : isName x) :
    Rereads (conditional n expr) (.member node base x) := by
  intro rest hrest
  have text : (Expr.member node base x).render ++ rest =
      parenthesize base.render ++ '.' :: (x.toList ++ rest) := by
    simp [Expr.render]
  rw [text]
  refine reads_conditional_suffix hn hbase rfl hrest ?_
  rintro start _ k base' rfl hbase'
  refine reads_skipBlanks.at_of_near.bind fun _ _ => reads_rest.bind_eq ?_
  refine (reads_skip 1).bind fun _ _ => (reads_name? hx hrest.stopsName).at_of_near.bind ?_
  rintro _ ⟨v, rfl, rfl⟩
  refine (reads_eat_not _ hrest.not_call).at_of_near.bind_eq ?_
  refine (reads_node start).bind fun node' _ => ?_
  refine reads_suffixes_end start ?_ hrest.endsOperand
  exact congrArg (Expr.member {} · v.name) hbase'

theorem rereads_subscript {base key : Expr} (hn : 0 < n) (hbase : Opens (primary n expr) base)
    (inner : Encloses expr key) : Rereads (conditional n expr) (.subscript node base key) := by
  intro rest hrest
  have text : (Expr.subscript node base key).render ++ rest =
      parenthesize base.render ++ '[' :: (parenthesize key.render ++ ']' :: rest) := by
    simp [Expr.render]
  rw [text]
  refine reads_conditional_suffix hn hbase rfl hrest ?_
  rintro start _ k base' rfl hbase'
  refine reads_skipBlanks.at_of_near.bind fun _ _ => reads_rest.bind_eq ?_
  refine (reads_skip 1).bind fun _ _ => ?_
  refine (inner _ (.cons (by decide) _)).at_of_near.bind fun key' hkey => ?_
  refine (reads_expect "]" rfl).near_of_at.bind fun _ _ => ?_
  refine (reads_node start).bind fun node' _ => ?_
  refine reads_suffixes_end start ?_ hrest.endsOperand
  exact congrArg₂ (Expr.subscript {}) hbase' hkey

theorem rereads_method {base : Expr} {x : String} {args : List Expr}
    (hbase : Opens (primary n expr) base) (hx : isName x) (inner : ∀ arg ∈ args, Encloses expr arg)
    (hn : args.length < n) : Rereads (conditional n expr) (.call node (some base) x args) := by
  intro rest hrest
  have text : (Expr.call node (some base) x args).render ++ rest =
      parenthesize base.render ++ '.' :: (x.toList ++
        '(' :: (separate ((Expr.renderAll args).map parenthesize) ++ (")".toList ++ rest))) := by
    simp [Expr.render, parenthesize]
  rw [text]
  refine reads_conditional_suffix (Nat.zero_lt_of_lt hn) hbase rfl hrest ?_
  rintro start _ k base' rfl hbase'
  refine reads_skipBlanks.at_of_near.bind fun _ _ => reads_rest.bind_eq ?_
  refine (reads_skip 1).bind fun _ _ => (reads_name? hx rfl).at_of_near.bind ?_
  rintro _ ⟨v, rfl, rfl⟩
  refine (reads_eat "(" rfl).at_of_near.bind_eq ?_
  refine (reads_list rfl inner hn.le).at_of_near.near_of_at.bind fun args' hargs => ?_
  refine (reads_node start).bind fun node' _ => ?_
  refine reads_suffixes_end start ?_ hrest.endsOperand
  rw [Expr.erase_method, Expr.erase_method, hbase', hargs]

theorem rereads_unary {op : UnaryOp} {operand : Expr} (hn : 0 < n)
    (hoperand : Opens (primary n expr) operand) :
    Rereads (conditional n expr) (.unary node op operand) := by
  intro rest hrest
  obtain _ | n := n
  · cases hn
  have text : (Expr.unary node op operand).render ++ rest =
      op.token.toList ++ (parenthesize operand.render ++ rest) := by
    simp [Expr.render]
  have sign : UnaryOp.at? ((op.token.toList ++ (parenthesize operand.render ++ rest)).dropWhile
      isBlank) = some op := by
    cases op <;> rfl
  have left : ((op.token.toList ++ (parenthesize operand.render ++ rest)).dropWhile
      isBlank).drop 1 = parenthesize operand.render ++ rest := by
    cases op <;> rfl
  rw [text]
  refine reads_conditional_of_prefixed hrest ?_
  refine reads_start fun start => ?_
  refine reads_rest.bind_eq ?_
  rw [sign]
  refine (reads_skip 1).bind fun _ _ => ?_
  rw [left]
  have inner := reads_operand [] n hoperand hrest.endsOperand (by simp)
  refine inner.at_of_near.bind fun operand' hoperand' => ?_
  refine (reads_node start).bind fun node' _ => .pure ?_
  exact congrArg (Expr.unary {} op) hoperand'

theorem rereads_binary {op : BinaryOp} {lhs rhs : Expr} (hn : 0 < n)
    (hlhs : Opens (primary n expr) lhs) (hrhs : Opens (primary n expr) rhs) :
    Rereads (conditional n expr) (.binary node op lhs rhs) := by
  intro rest hrest
  obtain _ | n := n
  · cases hn
  obtain ⟨looser, level, tighter, hlevels, own, others⟩ :=
    op.exists_level (parenthesize rhs.render ++ rest)
  have text : (Expr.binary node op lhs rhs).render ++ rest = parenthesize lhs.render ++
      ' ' :: (op.token.toList ++ ' ' :: (parenthesize rhs.render ++ rest)) := by
    simp [Expr.render]
  rw [text]
  refine reads_conditional ?_ hrest.not_question
  rw [hlevels]
  refine reads_levels ?_ fun l hl => hrest.standing?_eq_none (hlevels ▸ List.mem_append_left _ hl)
  have blank : (' ' :: (op.token.toList ++ ' ' :: (parenthesize rhs.render ++ rest))).dropWhile
      isBlank = op.token.toList ++ ' ' :: (parenthesize rhs.render ++ rest) := by
    cases op <;> rfl
  refine reads_start fun start => ?_
  have left := reads_operand tighter (n + 1) hlhs (.token op _) fun l hl => by
    rw [blank, others l hl]
  refine left.from_blanks.bind fun lhs' hlhs' => ?_
  refine (reads_operator? blank own).bind_eq ?_
  have right := reads_operand tighter (n + 1) hrhs hrest.endsOperand fun l hl =>
    hrest.standing?_eq_none (hlevels ▸ List.mem_append_right _ (List.mem_cons_of_mem _ hl))
  refine right.skip_blank.bind fun rhs' hrhs' => (reads_node start).bind fun node' _ => ?_
  refine reads_chain_end start ?_ (hrest.standing?_eq_none ?_)
  · exact congrArg₂ (Expr.binary {} op) hlhs' hrhs'
  · exact hlevels ▸ List.mem_append_right _ List.mem_cons_self

theorem rereads_ternary {condition ifTrue ifFalse : Expr}
    (hcondition : Opens (primary n expr) condition)
    (htrue : Encloses expr ifTrue) (hfalse : Encloses expr ifFalse) :
    Rereads (conditional n expr) (.ternary node condition ifTrue ifFalse) := by
  intro rest hrest
  have text : (Expr.ternary node condition ifTrue ifFalse).render ++ rest =
      parenthesize condition.render ++ ' ' :: '?' :: ' ' :: (parenthesize ifTrue.render ++
        ' ' :: ':' :: ' ' :: (parenthesize ifFalse.render ++ rest)) := by
    simp [Expr.render]
  rw [text]
  refine reads_start fun start => ?_
  have absent (text : List Char) : ∀ level ∈ BinaryOp.levels,
      BinaryOp.standing? ((' ' :: '?' :: ' ' :: text).dropWhile isBlank) level = none := by
    intro level hlevel
    fin_cases hlevel <;> rfl
  have first (text : List Char) :=
    reads_operand BinaryOp.levels n hcondition (.question (' ' :: text)) (absent text)
  refine (first _).from_blanks.bind fun condition' hcondition' => ?_
  refine reads_skipBlanks.bind fun _ _ => reads_rest.bind_eq ?_
  refine (reads_skip 1).bind fun _ _ => ?_
  have mark (text : List Char) : EndsExpr (' ' :: ':' :: text) :=
    (EndsExpr.cons (by decide) _).blank
  refine (htrue _ (mark _)).skip_blank.bind fun ifTrue' htrue' => ?_
  refine (reads_expect ":" rfl).bind fun _ _ => ?_
  refine (hfalse rest hrest).skip_blank.bind fun ifFalse' hfalse' => ?_
  refine (reads_node start).bind fun node' _ => .pure ?_
  show Expr.ternary {} condition'.erase ifTrue'.erase ifFalse'.erase = _
  rw [hcondition', htrue', hfalse']
  rfl

/-! ## Binders -/

theorem rereads_lambda {params : List LocalVar} {body : Expr}
    (hparams : ∀ v ∈ params, isName v.name) (hn : params.length ≤ n) (inner : Encloses expr body) :
    Rereads (conditional n expr) (.lambda node params body) := by
  intro rest hrest
  have names : ∀ x ∈ params.map LocalVar.name, isName x := by simpa using hparams
  have text : (Expr.lambda node params body).render ++ rest =
      parenthesize (separate ((params.map LocalVar.name).map String.toList)) ++
        (" => ".toList ++ (parenthesize body.render ++ rest)) := by
    simp [Expr.render, Function.comp_def]
  rw [text]
  refine reads_conditional_of_primary rfl hrest (reads_primary_paren ?_)
  refine reads_offset.bind fun start _ => ?_
  refine (reads_parameters? names (by simpa using hn) rfl).bind ?_
  rintro _ ⟨vs, rfl, hvs⟩
  refine (reads_mapM_declare vs _).bind fun params' hparams' => ?_
  refine (inner rest hrest).skip_blank.bind fun body' hbody => ?_
  refine (reads_node start).bind fun node' _ => .pure ?_
  rw [Expr.erase_lambda, Expr.erase_lambda, hparams', hvs, hbody]

theorem reads_mapM_declare_option (v : Option NameAt) (before : List Char → Prop) :
    Reads (v.mapM declare) before (fun x => x.map LocalVar.name = v.map NameAt.name) before := by
  cases v with
  | none => exact .pure rfl
  | some v =>
    rw [Option.mapM_some, map_eq_pure_bind]
    exact (reads_declare v).bind fun x hx => .pure (congrArg some hx)

theorem reads_loopVariable {x : String} (hx : isName x) (hstop : t.head?.any isNameChar = false) :
    Reads loopVariable (Near (x.toList ++ t)) (·.name = x) (· = t) := by
  refine reads_skipBlanks.bind fun _ _ => reads_column.bind fun column _ => ?_
  refine (reads_name? hx hstop).from_blanks.bind ?_
  rintro _ ⟨v, rfl, hv⟩
  exact .pure hv

theorem reads_loopVariables {item : LocalVar} {index : Option LocalVar} (hitem : isName item.name)
    (hindex : index.all fun v => isName v.name) (hstop : t.head?.any isNameChar = false) :
    Reads loopVariables (Near (Expr.renderVariables item index ++ t))
      (fun r => r.1.name = item.name ∧ r.2.map NameAt.name = index.map LocalVar.name) (· = t) := by
  cases index with
  | none =>
    have single : "(".toList.isPrefixOf ((item.name.toList ++ t).dropWhile isBlank) = false := by
      rw [dropWhile_name hitem]
      exact isPrefixOf_name hitem rfl _ _
    refine (reads_eat_not _ single).bind_eq ?_
    exact (reads_loopVariable hitem hstop).bind fun v hv => .pure ⟨hv, rfl⟩
  | some index =>
    have text : Expr.renderVariables item (some index) ++ t =
        '(' :: (item.name.toList ++ ',' :: ' ' :: (index.name.toList ++ ')' :: t)) := by
      simp [Expr.renderVariables, parenthesize, separate_cons_cons]
    rw [text]
    refine (reads_eat "(" rfl).bind_eq ?_
    refine (reads_loopVariable hitem rfl).at_of_near.bind fun v hv => ?_
    refine (reads_expect "," rfl).at_of_near.bind fun _ _ => ?_
    refine (reads_loopVariable hindex rfl).skip_blank.bind fun w hw => ?_
    refine (reads_expect ")" rfl).at_of_near.bind fun _ _ => ?_
    exact .pure ⟨hv, congrArg some hw⟩

theorem rereads_loop {item : LocalVar} {index : Option LocalVar} {collection body : Expr}
    (hitem : isName item.name) (hindex : index.all fun v => isName v.name)
    (outside : Encloses expr collection) (inside : Encloses expr body) :
    Rereads (conditional n expr) (.loop node item index collection body) := by
  intro rest hrest
  have text : (Expr.loop node item index collection body).render ++ rest =
      '[' :: 'f' :: 'o' :: 'r' :: ' ' :: (Expr.renderVariables item index ++
        ' ' :: 'i' :: 'n' :: ' ' :: (parenthesize collection.render ++
          ':' :: ' ' :: (parenthesize body.render ++ ']' :: rest))) := by
    simp [Expr.render]
  rw [text]
  refine reads_conditional_of_primary rfl hrest (reads_primary_bracket ?_)
  refine reads_offset.bind fun start _ => (reads_skip 1).bind fun _ _ => ?_
  refine reads_skipBlanks.at_of_near.bind fun _ _ => (reads_atKeyword "for").bind_eq ?_
  refine (reads_skip _).bind fun _ _ => ?_
  refine (reads_loopVariables hitem hindex rfl).skip_blank.bind ?_
  rintro ⟨item', index'⟩ ⟨hitem', hindex'⟩
  refine reads_skipBlanks.at_of_near.bind fun _ _ => (reads_atKeyword "in").bind_eq ?_
  refine (reads_skip _).bind fun _ _ => ?_
  refine (outside _ (.cons (by decide) _)).skip_blank.bind fun collection' hcollection => ?_
  refine (reads_expect ":" rfl).bind fun _ _ => ?_
  refine (reads_declare item').bind fun item'' hitem'' => ?_
  refine (reads_mapM_declare_option index' _).bind fun index'' hindex'' => ?_
  refine (inside _ (.cons (by decide) _)).skip_blank.bind fun body' hbody => ?_
  refine (reads_expect "]" rfl).near_of_at.bind fun _ _ => ?_
  refine (reads_node start).bind fun node' _ => .pure ?_
  rw [Expr.erase_loop, Expr.erase_loop, hitem'', hitem', hindex'', hindex', hcollection, hbody]

end Parser

end Preflight
