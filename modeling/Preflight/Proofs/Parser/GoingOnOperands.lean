import Preflight.Proofs.Parser.GoingOn
import Preflight.Proofs.Parser.RetraceOperands

/-! # Operands read on

There is one lemma for each kind of operand: what is read from a text is read where the text goes on
with what may stand after an expression. -/

namespace Preflight
set_option autoImplicit false

namespace LiteralRun

/-- A run that ends where it may is the same if the text goes on. -/
theorem scan_append {text : List Char} (u : List Char)
    (hproper : (scan text).terminator.isProper = true) : scan (text ++ u) = scan text := by
  fun_induction scan text
  case case1 => cases hproper
  case case3 => cases hproper
  case case4 c text run ih =>
    rw [List.cons_append, List.cons_append, scan, ih hproper]
  case case6 c text hquote hlone hescape hhole run ih =>
    have hbackslash : c ≠ '\\' := by
      rintro rfl
      cases text with
      | nil => exact hlone rfl rfl
      | cons d text => exact hescape d text rfl rfl
    rw [List.cons_append, scan, ih hproper]
    · exact hquote
    · exact fun h => absurd h hbackslash
    · exact fun _ _ h => absurd h hbackslash
    · rintro tail rfl htail
      cases text with
      | nil => cases hproper
      | cons d text =>
        obtain ⟨rfl, -⟩ := List.cons.inj htail
        exact hhole text rfl rfl
  all_goals rfl

end LiteralRun

namespace Parser

variable {α β γ δ : Type} {u text : List Char} {expr : Parser Expr}

/-- Expressions end before what may stand after them. -/
structure Stops (expr : Parser Expr) : Prop where
  fails : ∀ text, EndsExpr text → FailsOn text expr
  name : ∀ c e c' x rest, expr.run c = .ok (e, c') → isName x → Near (x.toList ++ rest) c.rest →
    EndsExpr rest → Near rest c'.rest

/-- The rule for nested expressions, up to spans and indices. -/
structure ExtendsNested (u : List Char) (expr : Parser Expr) : Prop extends Stops expr where
  reads_on : ∀ text, Extends u text expr expr Expr.erase

/-- The last step of most rules that build a node. -/
theorem extends_node {f g : Node → Expr} (start start' : Nat)
    (h : ∀ n n', (g n').erase = (f n).erase) :
    Extends u text (do return f (← node start)) (do return g (← node start')) Expr.erase :=
  .still_bind (still_node start) (still_node start') fun n n' _ _ => .pure (h n n')

/-! ## Strings and numbers -/

theorem extends_segments (inner : ExtendsNested u expr) (n start start' : Nat) :
    Extends u text (segments expr start n) (segments expr start' n)
      (fun r => (r.1, r.2.map Expr.erase)) := by
  induction n generalizing text with
  | zero => exact .throw
  | succ n ih =>
    unfold segments
    cases hend : (LiteralRun.scan text).terminator with
    | nothing =>
      refine .of_fails (.rest_bind ?_)
      dsimp only
      rw [hend]
      exact .bind_of_reads (reads_skip _) fun _ _ _ _ => .throw
    | backslash =>
      refine .of_fails (.rest_bind ?_)
      dsimp only
      rw [hend]
      exact .bind_of_reads (reads_skip _) fun _ _ _ _ => .offset_bind fun _ => .throw
    | quote =>
      refine .rest_bind fun u' _ => ?_
      rw [LiteralRun.scan_append u' (by rw [hend]; rfl)]
      dsimp only
      rw [hend]
      exact .skip_bind (LiteralRun.length_scan_le text) (.pure rfl)
    | hole =>
      refine .rest_bind fun u' _ => ?_
      rw [LiteralRun.scan_append u' (by rw [hend]; rfl)]
      dsimp only
      rw [hend]
      refine .skip_bind (LiteralRun.length_scan_le text) ?_
      refine (inner.reads_on _).bind fun hole hole' rest hhole => .expect_bind fun rest' _ => ?_
      refine ih.bind ?_
      rintro ⟨segments, holes⟩ ⟨segments', holes'⟩ rest'' hr
      obtain ⟨rfl, hholes⟩ := Prod.mk.inj hr
      refine .pure (congrArg (_, ·) ?_)
      rw [List.map_cons, List.map_cons, hhole, hholes]

theorem extends_string (inner : ExtendsNested u expr) (n : Nat) :
    Extends u ('\'' :: text) (string n expr) (string n expr) Expr.erase := by
  refine .still_bind still_offset still_offset fun start start' _ _ => .skip_one_bind ?_
  refine (extends_segments inner n start start').bind ?_
  rintro ⟨segments, holes⟩ ⟨segments', holes'⟩ rest h
  obtain ⟨rfl, hholes⟩ := Prod.mk.inj h
  refine extends_node start start' fun n n' => ?_
  rw [Expr.erase_string, Expr.erase_string, hholes]

/-- Digits are passed up to the first character that is none. -/
theorem digits_bind {f g : List Char → Parser β} {key : β → δ}
    (h : ∀ u', (text ++ u').takeWhile Char.isDigit = text.takeWhile Char.isDigit →
      Extends u (text.drop (text.takeWhile Char.isDigit).length) (f text) (g (text ++ u')) key) :
    Extends u text (do
      let chars ← rest
      skip (chars.takeWhile Char.isDigit).length
      f chars) (do
      let chars ← rest
      skip (chars.takeWhile Char.isDigit).length
      g chars) key := by
  refine .rest_bind fun u' hu' => ?_
  have hdigit : u'.head?.any Char.isDigit = false := hu'.head? rfl rfl rfl
  have hdigits := takeWhile_append_left text hdigit
  rw [hdigits]
  exact .skip_bind (List.takeWhile_prefix _).length_le (h u' hdigits)

theorem extends_integer : Extends u text integer integer Expr.erase := by
  refine .still_bind still_offset still_offset fun start start' _ _ => .rest_bind fun u' hu' => ?_
  have hminus : u'.head?.any (· == '-') = false := hu'.head? rfl rfl rfl
  rw [head?_beq_append _ hminus]
  dsimp only
  cases hnegative : text.head? == some '-' with
  | true =>
    obtain ⟨tail, rfl⟩ := List.head?_eq_some_iff.mp (beq_iff_eq.mp hnegative)
    simp only [if_true]
    refine .skip_one_bind (digits_bind fun u' hdigits => ?_)
    simp only [hdigits]
    split
    · exact extends_node start start' fun n n' => by rfl
    · exact .throw
  | false =>
    simp only [Bool.false_eq_true, if_false]
    refine digits_bind fun u' hdigits => ?_
    simp only [hdigits]
    split
    · exact extends_node start start' fun n n' => by rfl
    · exact .throw

/-! ## Lists -/

theorem extends_items (inner : ExtendsNested u expr) {close : String} {mark : Char}
    (hclose : close.toList = [mark]) (n : Nat) :
    Extends u text (items expr close n) (items expr close n) (List.map Expr.erase) := by
  induction n generalizing text with
  | zero => exact .throw
  | succ n ih =>
    refine (inner.reads_on text).bind fun e e' rest he => ?_
    refine .eat_close_bind hclose (fun rest' _ => .pure ?_) ?_ ?_
    · rw [List.map_singleton, List.map_singleton, he]
    · refine .expect_bind fun rest' _ => ih.bind fun es es' rest'' hes => .pure ?_
      rw [List.map_cons, List.map_cons, he, hes]
    · exact (Extends.failsOn_expect rfl).bind

theorem failsOn_items (inner : ExtendsNested u expr) (close : String) (n : Nat) :
    FailsOn [] (items expr close n) := by
  cases n with
  | zero => exact .throw
  | succ n => exact (inner.fails [] .nil).bind

theorem extends_list (inner : ExtendsNested u expr) {close : String} {mark : Char}
    (hclose : close.toList = [mark]) (n : Nat) :
    Extends u text (list n expr close) (list n expr close) (List.map Expr.erase) :=
  .eat_close_bind hclose (fun _ _ => .pure rfl) (extends_items inner hclose n)
    (failsOn_items inner close n)

/-! ## Lambdas and parentheses

An expression in parentheses is no parameter list unless it is a name, whatever follows it. -/

theorem extends_lambda (inner : ExtendsNested u expr) (start start' : Nat)
    {params params' : List NameAt} (hnames : params'.map NameAt.name = params.map NameAt.name) :
    Extends u text (lambda expr start params) (lambda expr start' params') Expr.erase := by
  refine .still_bind (still_declareAll params) (still_declareAll params') ?_
  intro xs xs' hxs hxs'
  refine (inner.reads_on text).bind fun body body' rest hbody => ?_
  refine extends_node start start' fun n n' => ?_
  rw [Expr.erase_lambda, Expr.erase_lambda, hxs, hxs', hnames, hbody]

theorem reads_parameters?_of_closedNames_none {n : Nat}
    (h : Reads (closedNames n) (· = text) (· = none) fun _ => True) :
    Reads (parameters? n) (· = '(' :: text) (· = none) (· = '(' :: text) := by
  rw [parameters?_eq]
  refine Reads.get_bind fun c hc => (reads_skip 1).bind fun _ _ => h.bind_eq ?_
  refine (reads_eat_any "=>").bind fun arrow _ => ?_
  exact Reads.bind (Reads.set hc) fun _ _ => .pure rfl

/-- A name in parentheses, as a list of one name. -/
theorem reads_closedNames_single {x : String} {blanks rest : List Char} (hx : isName x)
    (hblanks : ∀ b ∈ blanks, isBlank b)
    (htext : text.dropWhile isBlank = x.toList ++ (blanks ++ ')' :: rest)) (n : Nat) :
    Reads (closedNames (n + 1)) (· = text) (fun r => ∃ vs, r = some vs) (· = rest) := by
  refine (reads_eat_not ")" ?_).at_of_near.bind_eq ?_
  · rw [htext]
    exact isPrefixOf_name hx rfl _ _
  have name := (reads_name? hx (head?_blanks_append rfl hblanks rest)).blanks (u := text) <| by
    rw [dropWhile_name hx, htext]
  refine name.bind ?_
  rintro _ ⟨v, rfl, -⟩
  refine (reads_eat ")" ?_).at_of_near.bind_eq (.pure ⟨[v], rfl⟩)
  rw [List.dropWhile_append_of_pos hblanks]
  rfl

theorem dropWhile_isBlank_append {tail : List Char} (h : ¬EndsExpr tail) (u : List Char) :
    (tail ++ u).dropWhile isBlank = tail.dropWhile isBlank ++ u := by
  rw [List.dropWhile_append, if_neg]
  intro hempty
  refine h fun c hc => ?_
  rw [List.isEmpty_iff.mp hempty] at hc
  cases hc

theorem isPrefixOf_mark_append {tail : List Char} (h : ¬EndsExpr tail) {mark : Char}
    (hmark : mark ∈ [')', ']', '}', ',', ':']) (u : List Char) :
    [mark].isPrefixOf ((tail ++ u).dropWhile isBlank) = false := by
  rw [dropWhile_isBlank_append h]
  refine Bool.eq_false_iff.mpr fun hprefix => h fun c hc => ?_
  obtain ⟨more, hmore⟩ := Option.mem_def.mp hc |> List.head?_eq_some_iff.mp
  rw [hmore, List.cons_append, List.isPrefixOf_cons_cons, Bool.and_eq_true, beq_iff_eq] at hprefix
  exact hprefix.1 ▸ hmark

/-- What stands in parentheses is one name, or is no list of names, whatever it goes on with. -/
theorem closedNames_or {rest : List Char} (stops : Stops expr) {c c' : Cursor} {e : Expr}
    (run : expr.run c = .ok (e, c')) (hclose : c'.rest.dropWhile isBlank = ')' :: rest) :
    (∀ u n, Reads (closedNames n) (· = c.rest ++ u) (· = none) fun _ => True) ∨
    ∃ x blanks, isName x ∧ (∀ b ∈ blanks, isBlank b) ∧
      c.rest.dropWhile isBlank = x.toList ++ (blanks ++ ')' :: rest) := by
  have hfails : ¬EndsExpr c.rest := fun hends => stops.fails _ hends c _ rfl run
  have unclosed (u : List Char) := isPrefixOf_mark_append hfails (by decide : ')' ∈ _) u
  have hdrop := dropWhile_isBlank_append hfails
  cases hstart : (c.rest.dropWhile isBlank).head?.any isNameStart with
  | false =>
    refine .inl fun u n => (reads_eat_not ")" (unclosed u)).at_of_near.bind_eq ?_
    refine reads_moreParameters_other ?_
    rw [hdrop]
    cases htext : c.rest.dropWhile isBlank with
    | nil => exact absurd (by rw [EndsExpr, htext]; exact nofun) hfails
    | cons d text => rwa [htext] at hstart
  | true =>
    have hx := isName_takeWhile hstart
    have hsplit : c.rest.dropWhile isBlank =
        (String.ofList ((c.rest.dropWhile isBlank).takeWhile isNameChar)).toList ++
          (c.rest.dropWhile isBlank).dropWhile isNameChar := by
      rw [String.toList_ofList, List.takeWhile_append_dropWhile]
    have hstop := head?_dropWhile isNameChar (c.rest.dropWhile isBlank)
    generalize String.ofList ((c.rest.dropWhile isBlank).takeWhile isNameChar) = x at hx hsplit
    generalize (c.rest.dropWhile isBlank).dropWhile isNameChar = tail at hsplit hstop
    by_cases hends : EndsExpr tail
    · have hnear : Near (x.toList ++ tail) c.rest := by rw [Near, dropWhile_name hx, hsplit]
      have hrest := stops.name c e c' x tail run hx hnear hends
      rw [Near, hclose] at hrest
      refine .inr ⟨x, tail.takeWhile isBlank, hx, fun _ => List.mem_takeWhile_imp, ?_⟩
      rw [hrest, List.takeWhile_append_dropWhile, hsplit]
    · refine .inl fun u n => (reads_eat_not ")" (unclosed u)).at_of_near.bind_eq ?_
      cases n with
      | zero => exact .pure_somewhere rfl
      | succ n =>
        have missing {mark : Char} (hmark : mark ∈ _) := isPrefixOf_mark_append hends hmark u
        have hstop' : (tail ++ u).head?.any isNameChar = false := by
          cases tail with
          | nil => exact absurd .nil hends
          | cons d tail => exact hstop
        have hnear : Near (c.rest ++ u) (x.toList ++ (tail ++ u)) := by
          rw [Near, dropWhile_name hx, hdrop, hsplit, List.append_assoc]
        refine ((reads_name? hx hstop').blanks hnear).bind ?_
        rintro _ ⟨v, rfl, -⟩
        refine (reads_eat_not ")" (missing (by decide))).at_of_near.bind_eq ?_
        refine (reads_eat_not "," (missing (by decide))).bind_eq ?_
        exact .pure_somewhere rfl

/-- Where no arrow follows, or no name may be read, one name is no parameter list. -/
theorem reads_parameters?_single_none {x : String} {blanks rest : List Char} (hx : isName x)
    (hblanks : ∀ b ∈ blanks, isBlank b)
    (htext : text.dropWhile isBlank = x.toList ++ (blanks ++ ')' :: rest)) {n : Nat}
    (arrow : n = 0 ∨ "=>".toList.isPrefixOf (rest.dropWhile isBlank) = false) :
    Reads (parameters? n) (· = '(' :: text) (· = none) (· = '(' :: text) := by
  cases n with
  | zero =>
    refine reads_parameters?_of_closedNames_none ?_
    refine (reads_eat_not ")" ?_).at_of_near.bind_eq (.pure_somewhere rfl)
    rw [htext]
    exact isPrefixOf_name hx rfl _ _
  | succ n =>
    rw [parameters?_eq]
    refine Reads.get_bind fun d hd => (reads_skip 1).bind fun _ _ => ?_
    refine (reads_closedNames_single hx hblanks htext n).bind ?_
    rintro _ ⟨vs, rfl⟩
    have arrow := arrow.resolve_left (Nat.succ_ne_zero n)
    refine (reads_eat_not _ arrow).at_of_near.bind_eq ?_
    exact Reads.bind (Reads.set hd) fun _ _ => .pure rfl

theorem reads_parameters?_single {x : String} {blanks rest : List Char} (hx : isName x)
    (hblanks : ∀ b ∈ blanks, isBlank b)
    (htext : text.dropWhile isBlank = x.toList ++ (blanks ++ ')' :: rest))
    (arrow : "=>".toList.isPrefixOf (rest.dropWhile isBlank) = true) (n : Nat) :
    Reads (parameters? (n + 1)) (· = '(' :: text) (fun r => ∃ vs, r = some vs) fun _ => True := by
  obtain ⟨tail, htail⟩ := List.isPrefixOf_iff_prefix.mp arrow
  rw [parameters?_eq]
  refine Reads.get_bind fun d hd => (reads_skip 1).bind fun _ _ => ?_
  refine (reads_closedNames_single hx hblanks htext n).bind ?_
  rintro _ ⟨vs, rfl⟩
  exact (reads_eat "=>" htail.symm).at_of_near.bind_eq (.pure_somewhere ⟨vs, rfl⟩)

/-- Where no arrow follows, what stands in parentheses is no parameter list. -/
theorem reads_parameters?_inside {rest : List Char} (stops : Stops expr) {c c' : Cursor} {e : Expr}
    (run : expr.run c = .ok (e, c')) (hclose : c'.rest.dropWhile isBlank = ')' :: rest)
    (arrow : "=>".toList.isPrefixOf (rest.dropWhile isBlank) = false) (n : Nat) :
    Reads (parameters? n) (· = '(' :: c.rest) (· = none) (· = '(' :: c.rest) := by
  rcases closedNames_or stops run hclose with hnone | ⟨x, blanks, hx, hblanks, htext⟩
  · exact reads_parameters?_of_closedNames_none (List.append_nil c.rest ▸ hnone [] n)
  · exact reads_parameters?_single_none hx hblanks htext (.inr arrow)

theorem length_le_of_moreParameters {n : Nat} {c c' : Cursor} {vs : List NameAt}
    (run : (moreParameters n).run c = .ok (some vs, c')) : vs.length ≤ n := by
  induction n generalizing c vs with
  | zero => cases run
  | succ n ih =>
    obtain ⟨v, c₁, -, run⟩ := run_bind_eq_ok_iff.mp run
    cases v with
    | none => cases run
    | some v =>
      obtain ⟨closed, c₂, -, run⟩ := run_bind_eq_ok_iff.mp run
      cases closed with
      | true =>
        cases run
        exact Nat.le_add_left 1 n
      | false =>
        obtain ⟨separated, c₃, -, run⟩ := run_bind_eq_ok_iff.mp run
        cases separated with
        | false => cases run
        | true =>
          obtain ⟨vs', c₄, run₄, run⟩ := run_bind_eq_ok_iff.mp run
          cases vs' with
          | none => cases run
          | some vs' =>
            cases run
            exact Nat.succ_le_succ (ih run₄)

theorem length_le_of_parameters? {n : Nat} {c c' : Cursor} {vs : List NameAt}
    (run : (parameters? n).run c = .ok (some vs, c')) : vs.length ≤ n := by
  rw [parameters?_eq] at run
  obtain ⟨_, c₀, run₀, run⟩ := run_bind_eq_ok_iff.mp run
  obtain ⟨_, c₁, -, run⟩ := run_bind_eq_ok_iff.mp run
  obtain ⟨params, c₂, run₂, run⟩ := run_bind_eq_ok_iff.mp run
  obtain ⟨arrow, c₃, -, run⟩ := run_bind_eq_ok_iff.mp run
  split at run
  next =>
    cases run
    obtain ⟨closed, c₄, -, run₂⟩ := run_bind_eq_ok_iff.mp run₂
    cases closed with
    | true =>
      cases run₂
      exact Nat.zero_le n
    | false => exact length_le_of_moreParameters run₂
  next => cases run

/-- What was an expression in parentheses is no parameter list where the text goes on. -/
theorem reads_parameters?_goingOn (stops : Stops expr) {n : Nat} {c c₁ c' : Cursor}
    {e : Expr} (hc : c.rest = '(' :: text) (none : (parameters? n).run c = .ok (none, c₁))
    (run : (do
      skip 1
      let inner ← expr
      expect ")"
      return inner).run c = .ok (e, c')) {u' : List Char} (hu' : EndsExpr u') :
    Reads (parameters? n) (· = '(' :: text ++ u') (· = Option.none) (· = '(' :: text ++ u') := by
  obtain ⟨_, c₂, run₂, run₃⟩ := run_bind_eq_ok_iff.mp run
  cases run₂
  obtain ⟨e₃, c₃, run₃, run₄⟩ := run_bind_eq_ok_iff.mp run₃
  obtain ⟨_, c₄, run₄, run₅⟩ := run_bind_eq_ok_iff.mp run₄
  have htext : (c.advance 1).rest = text := by
    show c.rest.drop 1 = text
    rw [hc]
    rfl
  obtain ⟨rest, hclose⟩ : ∃ rest, c₃.rest.dropWhile isBlank = ')' :: rest := by
    cases hmark : ")".toList.isPrefixOf (c₃.rest.dropWhile isBlank) with
    | true =>
      obtain ⟨rest, hrest⟩ := List.isPrefixOf_iff_prefix.mp hmark
      exact ⟨rest, hrest.symm⟩
    | false => exact absurd run₄ (Extends.failsOn_expect hmark c₃ _ rfl)
  rcases closedNames_or stops run₃ hclose with hnone | ⟨x, blanks, hx, hblanks, hsingle⟩
  · exact reads_parameters?_of_closedNames_none (htext ▸ hnone u' n)
  · have hfails : ¬EndsExpr text := fun hends => stops.fails _ hends _ _ htext run₃
    rw [htext] at hsingle
    have hlonger : (text ++ u').dropWhile isBlank =
        x.toList ++ (blanks ++ ')' :: (rest ++ u')) := by
      rw [dropWhile_isBlank_append hfails, hsingle]
      simp
    refine reads_parameters?_single_none hx hblanks hlonger ?_
    cases n with
    | zero => exact .inl rfl
    | succ n =>
      refine .inr (Bool.eq_false_iff.mpr fun harrow => ?_)
      have arrow : "=>".toList.isPrefixOf (rest.dropWhile isBlank) = true := by
        obtain ⟨u'', hu'', -, happend⟩ := (GoesOn.of_ends hu' rest).dropWhile
        rwa [happend, isPrefixOf_append _ (hu''.head?_opening (by decide))] at harrow
      obtain ⟨_, c', run', ⟨vs, rfl⟩, -⟩ := reads_parameters?_single hx hblanks hsingle arrow n c hc
      cases run'.symm.trans none

/-- A parameter list is read where its text goes on, and nothing else is taken for one. -/
theorem parameters_bind (inner : ExtendsNested u expr) {n : Nat} {start start' : Nat} :
    Extends u ('(' :: text) (do
      match ← parameters? n with
      | some params => lambda expr start params
      | none =>
        skip 1
        let inner ← expr
        expect ")"
        return inner) (do
      match ← parameters? n with
      | some params => lambda expr start' params
      | none =>
        skip 1
        let inner ← expr
        expect ")"
        return inner) Expr.erase := by
  intro c e c' hc run
  obtain ⟨params, c₁, run₁, run₂⟩ := run_bind_eq_ok_iff.mp run
  cases params with
  | some vs =>
    obtain ⟨t, pass, -, again⟩ := reads_parameters?_again run₁
    rintro d ⟨u', hu', hnear, hd⟩
    rw [← hc, pass.rest, List.append_assoc] at hd
    obtain ⟨_, d₁, run', ⟨vs', rfl, hnames⟩, hd₁⟩ :=
      again n (c₁.rest ++ u') (length_le_of_parameters? run₁) d hd
    have goesOn : GoesOn u c₁.rest d₁.rest := ⟨u', hu', hnear, hd₁⟩
    obtain ⟨e', d', run'', he, hd'⟩ :=
      extends_lambda inner start start' hnames c₁ e c' rfl run₂ d₁ goesOn
    exact ⟨e', d', run_bind_eq_ok_iff.mpr ⟨some vs', d₁, run', run''⟩, he, hd'⟩
  | none =>
    have hc₁ := run_parameters?_none run₁
    rw [hc₁] at run₂
    rintro d ⟨u', hu', hnear, hd⟩
    have none' := reads_parameters?_goingOn inner.toStops hc run₁ run₂ hu'
    refine none'.bind_eq ?_ d hd
    have rest' : Extends u ('(' :: text) (do
        skip 1
        let inner ← expr
        expect ")"
        return inner) (do
        skip 1
        let inner ← expr
        expect ")"
        return inner) Expr.erase :=
      .skip_one_bind <| (inner.reads_on text).bind fun _ _ _ he => .expect_bind fun _ _ => .pure he
    refine (rest' c e c' hc run₂).imp ?_ (fun _ => id) fun _ => id
    rintro _ rfl
    exact ⟨u', hu', hnear, rfl⟩

theorem extends_parenthesized (inner : ExtendsNested u expr) (n : Nat) :
    Extends u ('(' :: text) (parenthesized n expr) (parenthesized n expr) Expr.erase :=
  .still_bind still_offset still_offset fun _ _ _ _ => parameters_bind inner

/-! ## Loops and arrays -/

theorem extends_loopVariable : Extends u text loopVariable loopVariable NameAt.name := by
  refine .blanks_bind (.still_bind still_column still_column fun column column' _ _ => ?_)
  refine extends_name?.bind fun v v' rest hv => ?_
  cases v with
  | none => exact .throw
  | some v =>
    obtain ⟨v', rfl, hname⟩ := Option.map_eq_some_iff.mp hv
    exact .pure hname

theorem extends_loopVariables : Extends u text loopVariables loopVariables
    (fun r => (r.1.name, r.2.map NameAt.name)) := by
  refine .eat_bind (by decide) (fun rest _ => ?_) ?_
  · refine extends_loopVariable.bind fun item item' rest hitem => .expect_bind fun rest' _ => ?_
    refine extends_loopVariable.bind fun index index' rest hindex => .expect_bind fun rest' _ => ?_
    exact .pure (congrArg₂ (fun x y => (x, some y)) hitem hindex)
  · refine extends_loopVariable.bind fun item item' rest hitem => .pure ?_
    exact congrArg (·, none) hitem

theorem extends_loop (inner : ExtendsNested u expr) (start start' : Nat) :
    Extends u text (loop expr start) (loop expr start') Expr.erase := by
  refine extends_loopVariables.bind ?_
  rintro ⟨item, index⟩ ⟨item', index'⟩ rest hnames
  obtain ⟨hitem : item'.name = item.name, hindex : index'.map NameAt.name = _⟩ :=
    Prod.mk.inj hnames
  refine .blanks_bind (.keyword_bind (by decide) (fun hword => ?_) ?_)
  · refine .skip_bind (String.length_toList ▸ hword.length_le) ?_
    refine (inner.reads_on _).bind fun collection collection' rest' hcollection => ?_
    refine .expect_bind fun rest'' _ => ?_
    refine .still_bind (still_declare item) (still_declare item') fun x x' hx hx' => ?_
    refine .still_bind (still_declareOption index) (still_declareOption index') ?_
    intro y y' hy hy'
    refine (inner.reads_on _).bind fun body body' _ hbody => .expect_bind fun _ _ => ?_
    refine extends_node start start' fun n n' => ?_
    rw [Expr.erase_loop, Expr.erase_loop, hx, hx', hitem, hy, hy', hindex, hcollection, hbody]
  · exact .still_bind still_column still_column fun _ _ _ _ => .throw

theorem extends_arrayOrLoop (inner : ExtendsNested u expr) (n : Nat) :
    Extends u ('[' :: text) (arrayOrLoop n expr) (arrayOrLoop n expr) Expr.erase := by
  refine .still_bind still_offset still_offset fun start start' _ _ => .skip_one_bind ?_
  refine .blanks_bind (.keyword_bind (by decide) (fun hword => ?_) ?_)
  · refine .skip_bind (String.length_toList ▸ hword.length_le) ?_
    exact extends_loop inner start start'
  · refine (extends_list inner rfl n).bind fun items items' rest hitems => ?_
    refine extends_node start start' fun n n' => ?_
    rw [Expr.erase_array, Expr.erase_array, hitems]

/-! ## Objects -/

theorem extends_key (inner : ExtendsNested u expr) (n : Nat) :
    Extends u text (key n expr) (key n expr) id := by
  refine .blanks_bind (.still_bind still_column still_column fun column column' _ _ => ?_)
  refine .rest_bind fun u' hu' => ?_
  have hquote : u'.head?.any (· == '\'') = false := hu'.head? rfl rfl rfl
  rw [head?_beq_append _ hquote]
  generalize text.dropWhile isBlank = chars
  split
  next hmark =>
    obtain ⟨tail, rfl⟩ := List.head?_eq_some_iff.mp (beq_iff_eq.mp hmark)
    refine (extends_string inner n).bind fun e e' rest he => ?_
    rw [literal?_of_erase_eq he]
    cases e.literal? with
    | none => exact .throw
    | some literal => exact .pure rfl
  next =>
    refine extends_name?.bind fun v v' rest hv => ?_
    cases v with
    | none => exact .throw
    | some v =>
      obtain ⟨v', rfl, hname⟩ := Option.map_eq_some_iff.mp hv
      exact .pure hname

theorem failsOn_key (n : Nat) : FailsOn [] (key n expr) := by
  refine .skipBlanks_bind (.bind_of_reads reads_column fun column _ _ h => ?_)
  subst h
  refine .rest_bind (.bind_of_reads (reads_name?_none (t := []) rfl).at_of_near ?_)
  rintro _ _ rfl -
  exact .throw

theorem extends_properties (inner : ExtendsNested u expr) (n : Nat) :
    Extends u text (properties expr n) (properties expr n) Expr.settings := by
  induction n generalizing text with
  | zero => exact .still_bind still_column still_column fun _ _ _ _ => .throw
  | succ n ih =>
    refine .start_bind fun start start' => (extends_key inner (n + 1)).bind ?_
    intro key key' rest hkey
    obtain rfl : key' = key := hkey
    refine .expect_bind fun rest' _ => (inner.reads_on _).bind fun value value' rest'' hvalue => ?_
    refine .still_bind (still_spanFrom start) (still_spanFrom start') fun span span' _ _ => ?_
    refine .eat_close_bind rfl (fun _ _ => .pure ?_) ?_ ?_
    · simp [Expr.settings, hvalue]
    · refine .expect_bind fun _ _ => ih.bind fun ps ps' _ hps => .pure ?_
      unfold Expr.settings at hps ⊢
      rw [List.map_cons, List.map_cons, hvalue, hps]
    · exact (Extends.failsOn_expect rfl).bind

theorem failsOn_properties (n : Nat) : FailsOn [] (properties expr n) := by
  cases n with
  | zero => exact .bind_of_reads reads_column fun _ _ _ _ => .throw
  | succ n => exact .skipBlanks_bind (.offset_bind fun _ => (failsOn_key (n + 1)).bind)

theorem extends_object (inner : ExtendsNested u expr) (n : Nat) :
    Extends u ('{' :: text) (object n expr) (object n expr) Expr.erase := by
  refine .still_bind still_offset still_offset fun start start' _ _ => .skip_one_bind ?_
  refine .eat_close_bind rfl (fun rest _ => ?_) ?_ ?_
  · exact extends_node (f := (.object · [])) (g := (.object · [])) start start' fun _ _ => rfl
  · refine (extends_properties inner n).bind fun ps ps' rest hps => ?_
    refine extends_node start start' fun n n' => ?_
    rw [Expr.erase_object, Expr.erase_object, hps]
  · exact (failsOn_properties n).bind

/-! ## Names and operands -/

theorem extends_named (inner : ExtendsNested u expr) (n start start' : Nat) {v v' : NameAt}
    (hv : v'.name = v.name) :
    Extends u text (named n expr start v) (named n expr start' v') Expr.erase := by
  unfold named
  rw [hv]
  split
  · exact extends_node start start' fun n n' => by rfl
  · exact extends_node start start' fun n n' => by rfl
  · exact extends_node start start' fun n n' => by rfl
  · refine .eat_bind (by decide) (fun rest _ => ?_) ?_
    · refine extends_lambda inner start start' ?_
      rw [List.map_singleton, List.map_singleton, hv]
    refine .eat_bind (by decide) (fun rest _ => ?_) ?_
    · refine (extends_list inner rfl n).bind fun args args' rest' hargs => ?_
      refine extends_node start start' fun n n' => ?_
      rw [Expr.erase_call, Expr.erase_call, hargs]
    · refine .still_bind still_freshIndex still_freshIndex fun i i' _ _ => .pure ?_
      rfl

theorem extends_word (inner : ExtendsNested u expr) (n start start' : Nat) (c : Char)
    (chars chars' : List Char) :
    Extends u text (word n expr start c chars) (word n expr start' c chars') Expr.erase := by
  unfold word
  split
  · exact extends_integer
  · refine extends_name?.bind fun v v' rest hv => ?_
    cases v with
    | none => exact .throw
    | some v =>
      obtain ⟨v', rfl, hname⟩ := Option.map_eq_some_iff.mp hv
      exact extends_named inner n start start' hname

theorem extends_primary (inner : ExtendsNested u expr) (n : Nat) :
    Extends u text (primary n expr) (primary n expr) Expr.erase := by
  rw [primary_eq]
  refine .start_bind fun start start' => .rest_bind fun u' _ => ?_
  cases text.dropWhile isBlank with
  | nil => exact .throw
  | cons c chars =>
    -- where the text goes on, the same character decides
    by_cases hc : c ∈ ['\'', '(', '[', '{']
    · fin_cases hc
      · exact extends_string inner n
      · exact extends_parenthesized inner n
      · exact extends_arrayOrLoop inner n
      · exact extends_object inner n
    · rw [List.cons_append, operandAt_eq_word hc, operandAt_eq_word hc]
      exact extends_word inner n start start' c chars _

theorem failsOn_word {c : Char} (hnumber : isNumberStart c = false) (hname : isNameStart c = false)
    (hblank : isBlank c = false) (n start : Nat) :
    FailsOn (c :: text) (word n expr start c text) := by
  have hnumber : ¬(c.isDigit || c == '-') = true := Bool.eq_false_iff.mp hnumber
  rw [word, if_neg hnumber]
  refine .bind_of_reads (reads_name?_none ?_).at_of_near ?_
  · rwa [List.dropWhile_cons_of_neg (Bool.eq_false_iff.mp hblank)]
  · rintro _ _ rfl -
    exact .throw

theorem failsOn_primary (h : EndsExpr text) (n : Nat) : FailsOn text (primary n expr) := by
  rw [primary_eq]
  refine .skipBlanks_bind (.offset_bind fun start => .rest_bind ?_)
  refine h.elim (P := fun text => FailsOn text (operandAt n expr start text)) .throw ?_
  intro c hc text
  fin_cases hc <;> exact failsOn_word rfl rfl rfl n start

end Parser

end Preflight
