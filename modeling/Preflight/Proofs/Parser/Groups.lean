import Preflight.Proofs.Expr.Readable
import Preflight.Proofs.Parser.Operators

/-! # Parentheses and lists

What stands in parentheses is an expression or a parameter list; the two are told apart by what
the parentheses hold and by the arrow behind them. Lists of expressions are read item by item. -/

namespace Preflight
set_option autoImplicit false

theorem dropWhile_opening {r : List Char} (h : Expr.Opening r) (rest : List Char) :
    (r ++ rest).dropWhile isBlank = r ++ rest := by
  cases h with
  | name hx => exact dropWhile_name hx rest
  | called hx text =>
    rw [List.append_assoc]
    exact dropWhile_name hx _
  | other text blank => rw [List.cons_append, List.dropWhile_cons_of_neg (by simp [blank])]

namespace Parser

variable {expr : Parser Expr} {result : Expr → Prop} {t rest : List Char} {n : Nat}

/-! ## Parentheses -/

/-- The names of a parameter list, which take a turn each. -/
theorem reads_moreParameters {x : String} {xs : List String} (hxs : ∀ y ∈ x :: xs, isName y)
    (hn : (x :: xs).length ≤ n) :
    Reads (moreParameters n) (Near (separate ((x :: xs).map String.toList) ++ ')' :: rest))
      (fun r => ∃ vs, r = some vs ∧ vs.map NameAt.name = x :: xs) (· = rest) := by
  induction xs generalizing x n with
  | nil =>
    obtain _ | n := n
    · cases hn
    rw [List.map_singleton, separate_singleton]
    refine (reads_name? (hxs x List.mem_cons_self) rfl).bind ?_
    rintro _ ⟨v, rfl, rfl⟩
    refine (reads_eat ")" rfl).at_of_near.bind_eq ?_
    exact .pure ⟨[v], rfl, rfl⟩
  | cons y ys ih =>
    obtain _ | n := n
    · cases hn
    rw [List.map_cons, List.map_cons, separate_cons_cons, List.append_assoc]
    refine (reads_name? (hxs x List.mem_cons_self) rfl).bind ?_
    rintro _ ⟨v, rfl, rfl⟩
    refine (reads_eat_not ")" rfl).at_of_near.bind_eq ?_
    refine (reads_eat "," rfl).bind_eq ?_
    have later := ih (fun z hz => hxs z (List.mem_cons_of_mem _ hz)) (Nat.le_of_succ_le_succ hn)
    refine later.skip_blank.bind ?_
    rintro _ ⟨vs, rfl, hvs⟩
    exact .pure ⟨v :: vs, rfl, by rw [List.map_cons, hvs]⟩

theorem reads_moreParameters_single {x : String} (hx : isName x) :
    Reads (moreParameters (n + 1)) (Near (x.toList ++ ')' :: rest)) (fun r => ∃ vs, r = some vs)
      (· = rest) := by
  refine (reads_name? hx rfl).bind ?_
  rintro _ ⟨v, rfl, -⟩
  exact (reads_eat ")" rfl).at_of_near.bind_eq (.pure ⟨[v], rfl⟩)

theorem reads_moreParameters_other (h : (t.dropWhile isBlank).head?.any isNameStart = false) :
    Reads (moreParameters n) (Near t) (· = none) fun _ => True := by
  cases n with
  | zero => exact .pure_somewhere rfl
  | succ n =>
    refine (reads_name?_none h).bind_eq ?_
    exact .pure_somewhere rfl

theorem reads_moreParameters_called {x : String} (hx : isName x) (text : List Char) :
    Reads (moreParameters n) (Near (x.toList ++ '(' :: text)) (· = none) fun _ => True := by
  cases n with
  | zero => exact .pure_somewhere rfl
  | succ n =>
    refine (reads_name? hx rfl).bind ?_
    rintro _ ⟨v, rfl, rfl⟩
    refine (reads_eat_not ")" rfl).at_of_near.bind_eq ?_
    refine (reads_eat_not "," rfl).bind_eq ?_
    exact .pure_somewhere rfl

/-- The text of an expression in parentheses is no parameter list: what stands there is no name, or
goes on as a call, or is not followed by an arrow. -/
theorem reads_parameters?_none {r : List Char} (h : Expr.Opening r)
    (arrow : "=>".toList.isPrefixOf (rest.dropWhile isBlank) = false) :
    Reads (parameters? n) (· = '(' :: r ++ ')' :: rest) (· = none)
      (· = '(' :: r ++ ')' :: rest) := by
  refine Reads.get_bind fun c hc => (reads_skip 1).bind fun _ _ => ?_
  extract_lets close
  have undone (before : List Char → Prop) :
      Reads (do set c; return none : Parser (Option (List NameAt))) before (· = none)
        (· = '(' :: r ++ ')' :: rest) :=
    Reads.bind (Reads.set hc) fun _ _ => .pure rfl
  have without : Reads (close none) (fun _ => True) (· = none) (· = '(' :: r ++ ')' :: rest) :=
    (reads_eat_any "=>").bind fun found _ => undone _
  have named (vs : List NameAt) :
      Reads (close (some vs)) (· = rest) (· = none) (· = '(' :: r ++ ')' :: rest) :=
    (reads_eat_not _ arrow).at_of_near.bind_eq (undone _)
  have unclosed : Reads (eat ")") (· = r ++ ')' :: rest) (· = false) (Near (r ++ ')' :: rest)) := by
    refine (reads_eat_not _ ?_).at_of_near
    rw [dropWhile_opening h]
    cases h with
    | name hx => exact isPrefixOf_name hx rfl _ _
    | called hx text =>
      rw [List.append_assoc]
      exact isPrefixOf_name hx rfl _ _
    | other text blank start hclose =>
      rw [List.cons_append]
      exact Bool.and_eq_false_iff.mpr (.inl (beq_eq_false_iff_ne.mpr hclose.symm))
  refine unclosed.bind_eq ?_
  cases h with
  | name hx =>
    cases n with
    | zero => exact Reads.bind_eq (.pure_somewhere rfl) without
    | succ n =>
      refine (reads_moreParameters_single hx).bind ?_
      rintro _ ⟨vs, rfl⟩
      exact named vs
  | called hx text =>
    rw [List.append_assoc, List.cons_append]
    exact (reads_moreParameters_called hx _).bind_eq without
  | other text blank start =>
    refine (reads_moreParameters_other ?_).bind_eq without
    rw [List.cons_append, List.dropWhile_cons_of_neg (by simp [blank])]
    exact start

/-- A parameter list with its arrow. -/
theorem reads_parameters? {xs : List String} (hxs : ∀ x ∈ xs, isName x) (hn : xs.length ≤ n)
    (arrow : t.dropWhile isBlank = "=>".toList ++ rest) :
    Reads (parameters? n) (· = parenthesize (separate (xs.map String.toList)) ++ t)
      (fun r => ∃ vs, r = some vs ∧ vs.map NameAt.name = xs) (· = rest) := by
  refine Reads.get_bind fun c hc => (reads_skip 1).bind fun _ _ => ?_
  extract_lets close
  have closed (vs : List NameAt) (hvs : vs.map NameAt.name = xs) :
      Reads (close (some vs)) (· = t) (fun r => ∃ vs, r = some vs ∧ vs.map NameAt.name = xs)
        (· = rest) :=
    (reads_eat _ arrow).at_of_near.bind_eq (.pure ⟨vs, rfl, hvs⟩)
  cases xs with
  | nil =>
    refine (reads_eat ")" rfl).at_of_near.bind_eq ?_
    exact closed [] rfl
  | cons x xs =>
    have text : (parenthesize (separate ((x :: xs).map String.toList)) ++ t).drop 1 =
        separate ((x :: xs).map String.toList) ++ ')' :: t := by
      simp [parenthesize]
    rw [text]
    have unclosed : Reads (eat ")") (· = separate ((x :: xs).map String.toList) ++ ')' :: t)
        (· = false) (Near (separate ((x :: xs).map String.toList) ++ ')' :: t)) := by
      obtain ⟨text, htext⟩ := exists_separate_cons x.toList (xs.map String.toList)
      rw [List.map_cons, htext, List.append_assoc]
      refine (reads_eat_not _ ?_).at_of_near
      rw [dropWhile_name (hxs x List.mem_cons_self)]
      exact isPrefixOf_name (hxs x List.mem_cons_self) rfl _ _
    refine unclosed.bind_eq ((reads_moreParameters hxs hn).bind ?_)
    rintro _ ⟨vs, rfl, hvs⟩
    exact closed vs hvs

/-- An expression in parentheses stands for itself. -/
theorem reads_parenthesize {r : List Char} (h : Expr.Opening r)
    (arrow : "=>".toList.isPrefixOf (rest.dropWhile isBlank) = false)
    (inner : Reads expr (Near (r ++ ')' :: rest)) result (Near (')' :: rest))) :
    Reads (primary n expr) (Near (parenthesize r ++ rest)) result (· = rest) := by
  refine reads_start fun start => ?_
  have text : (parenthesize r ++ rest).dropWhile isBlank = '(' :: r ++ ')' :: rest := by
    rw [parenthesize, List.append_assoc]
    rfl
  rw [text]
  refine reads_rest.bind_eq (reads_offset.bind fun start _ => ?_)
  refine (reads_parameters?_none h arrow).bind_eq ?_
  refine (reads_skip 1).bind fun _ _ => inner.at_of_near.bind fun e he => ?_
  exact (reads_expect ")" rfl).bind fun _ _ => .pure he

/-- The parser reads the expression in parentheses, wherever an expression may end. -/
def Encloses (expr : Parser Expr) (e : Expr) : Prop :=
  ∀ rest, EndsExpr rest → Reads expr (Near (parenthesize e.render ++ rest))
    (fun e' => e'.erase = e.erase) (Near rest)

/-! ## Lists -/

section

variable {close : String}

/-- The ends of lists of expressions. -/
def isListEnd (close : String) : Bool := close ∈ [")", "]"]

theorem dropWhile_listEnd (h : isListEnd close) :
    (close.toList ++ rest).dropWhile isBlank = close.toList ++ rest := by
  have h : close ∈ [")", "]"] := of_decide_eq_true h
  fin_cases h <;> rfl

theorem endsExpr_listEnd (h : isListEnd close) (rest : List Char) :
    EndsExpr (close.toList ++ rest) := by
  have h : close ∈ [")", "]"] := of_decide_eq_true h
  fin_cases h <;> exact EndsExpr.cons (by decide) rest

theorem isPrefixOf_listEnd (h : isListEnd close) {c : Char} (hc : c = '(' ∨ c = ',') :
    close.toList.isPrefixOf (c :: rest) = false := by
  have h : close ∈ [")", "]"] := of_decide_eq_true h
  fin_cases h <;> rcases hc with rfl | rfl <;> rfl

theorem reads_items (hclose : isListEnd close) {e : Expr} {es : List Expr}
    (inner : ∀ x ∈ e :: es, Encloses expr x) (hn : (e :: es).length ≤ n) :
    Reads (items expr close n)
      (Near (separate ((Expr.renderAll (e :: es)).map parenthesize) ++ (close.toList ++ rest)))
      (fun xs => xs.map Expr.erase = (e :: es).map Expr.erase) (· = rest) := by
  induction es generalizing e n with
  | nil =>
    obtain _ | n := n
    · cases hn
    rw [Expr.renderAll, Expr.renderAll, List.map_singleton, separate_singleton]
    refine (inner e List.mem_cons_self _ (endsExpr_listEnd hclose rest)).bind fun x hx => ?_
    refine (reads_eat _ (dropWhile_listEnd hclose)).bind_eq (.pure ?_)
    simpa using hx
  | cons f fs ih =>
    obtain _ | n := n
    · cases hn
    rw [Expr.renderAll, List.map_cons, Expr.renderAll, List.map_cons, separate_cons_cons,
      List.append_assoc]
    refine (inner e List.mem_cons_self _ (.cons (c := ',') (by decide) _)).bind fun x hx => ?_
    refine (reads_eat_not _ (isPrefixOf_listEnd hclose (.inr rfl))).bind_eq ?_
    refine (reads_expect "," rfl).bind fun _ _ => ?_
    have later := ih (fun z hz => inner z (List.mem_cons_of_mem _ hz)) (Nat.le_of_succ_le_succ hn)
    rw [Expr.renderAll, List.map_cons] at later
    refine later.skip_blank.bind fun xs hxs => .pure ?_
    rw [List.map_cons, hx, hxs]
    rfl

/-- Expressions between brackets, or none. -/
theorem reads_list (hclose : isListEnd close) {es : List Expr}
    (inner : ∀ x ∈ es, Encloses expr x) (hn : es.length ≤ n) :
    Reads (list n expr close)
      (Near (separate ((Expr.renderAll es).map parenthesize) ++ (close.toList ++ rest)))
      (fun xs => xs.map Expr.erase = es.map Expr.erase) (· = rest) := by
  cases es with
  | nil => exact (reads_eat _ (dropWhile_listEnd hclose)).bind_eq (.pure rfl)
  | cons e es =>
    have nonempty : close.toList.isPrefixOf ((separate ((Expr.renderAll (e :: es)).map
        parenthesize) ++ (close.toList ++ rest)).dropWhile isBlank) = false := by
      obtain ⟨text, htext⟩ := exists_separate_cons (parenthesize e.render)
        ((Expr.renderAll es).map parenthesize)
      rw [Expr.renderAll, List.map_cons, htext]
      exact isPrefixOf_listEnd hclose (.inl rfl)
    exact (reads_eat_not _ nonempty).bind_eq (reads_items hclose inner hn)

end

end Parser

end Preflight
