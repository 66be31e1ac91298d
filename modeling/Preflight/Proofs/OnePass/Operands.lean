import Preflight.Proofs.OnePass.Tokens

/-! # Literals and lists

Integers, lists and strings are read in one pass as the parser reads them, if the expressions inside
them are. -/

namespace Preflight
set_option autoImplicit false

namespace OnePass

/-- The tree in its place, of at least `n` characters, with its names bound. -/
def Tree (f : Setting) (n : Nat) (c : Cursor) (s : Session) (e e' : Expr) (c' : Cursor)
    (s' : Session) : Prop :=
  e' = e.map f.placing ∧ Passed (fun names => Binder.expr names e') n c s c' s'

/-- Expressions are read as the parser reads them where fewer than `k` characters are left. No rule
goes through more than 16 others before a character is passed, so calls that nest 16 deep for each
character are deep enough; an expression goes through 12 rules down to its first primary. -/
def Below (k : Nat) (expr : Parser Expr) : Prop :=
  ∀ (f : Setting) (c : Cursor) (s : Session) {depth : Nat}, f.Along c s → c.rest.length < k →
    16 * c.rest.length + 13 ≤ depth →
    Follows f expr (OnePass.expr f.text f.base depth) c s (Tree f 1 c s)

variable {f : Setting} {c : Cursor} {s : Session} {expr : Parser Expr} {depth k m n : Nat}

/-! ## Integers -/

theorem Tree.after {c₁ : Cursor} {s₁ : Session} {e e' : Expr} {c' : Cursor} {s' : Session}
    (h : Tree f m c₁ s₁ e e' c' s') (hpassed : Silent k c s c₁ s₁) (hn : n ≤ k + m) :
    Tree f n c s e e' c' s' :=
  ⟨h.1, (h.2.after hpassed).weaken hn⟩

/-- A leaf of the tree. -/
theorem follows_leaf (along : f.Along c s) (start : Nat) {build : Node → Expr}
    (hplace : ∀ n, (build n).map f.placing = build (n.map f.placing))
    (hquiet : ∀ names n, Binder.expr names (build n) = pure ()) :
    Follows f (do return build (← Parser.node start)) (do return build (← node f.base start)) c s
      (Tree f 0 c s) := by
  apply (follows_node along start).bind
  rintro n _ c₁ s₁ along₁ ⟨rfl, passed⟩
  apply Follows.pure along₁
  refine ⟨(hplace n).symm, ?_⟩
  simp only [hquiet]
  exact passed

/-- The digits are passed, and what they are worth with the sign before them is told alike. -/
theorem follows_digits (along : f.Along c s) {before sign : List Char}
    (htext : f.text = before ++ (sign ++ c.rest))
    (hdigit : c.rest.head?.any Char.isDigit = true) {finish : Parser Expr}
    (hfinish :
      (∃ value, integerValue (utf8Length before + 1) (sign ++ c.rest.takeWhile Char.isDigit) =
          .ok value ∧
        finish = do return .int (← Parser.node (utf8Length before)) value) ∨
      ∃ cause, integerValue (utf8Length before + 1) (sign ++ c.rest.takeWhile Char.isDigit) =
          .error (.parse cause) ∧
        finish = throw cause) :
    Follows f (do
        Parser.skip (c.rest.takeWhile Char.isDigit).length
        finish) (do
        skipWhile f.text Char.isDigit
        let slice ← sliceFrom f.text (utf8Length before)
        let value ← liftExcept (integerValue (utf8Length before + 1) slice)
        return .int (← node f.base (utf8Length before)) value) c s (Tree f 1 c s) := by
  obtain ⟨s₁, run, along₁, hbinder⟩ := exists_skipWhile single_isDigit along
  have hsplit := (Cursor.Passes.advance c (c.rest.takeWhile Char.isDigit).length).rest
  rw [Parser.take_length_takeWhile] at hsplit
  have hslice : (sliceFrom f.text (utf8Length before)).outcome s₁ =
      some (.ok (sign ++ c.rest.takeWhile Char.isDigit), s₁) := by
    apply along₁.outcome_sliceFrom
    rw [List.append_assoc, ← hsplit, htext]
  have passed : Silent 1 c s (c.advance (c.rest.takeWhile Char.isDigit).length) s₁ := by
    refine ⟨?_, hbinder⟩
    have hlength := congrArg List.length hsplit
    rw [List.length_append] at hlength
    have hpos : 1 ≤ (c.rest.takeWhile Char.isDigit).length := by
      cases hrest : c.rest with
      | nil => simp [hrest] at hdigit
      | cons d text =>
        rw [hrest] at hdigit
        rw [List.takeWhile_cons_of_pos (by simpa using hdigit)]
        exact Nat.le_add_left 1 _
    omega
  apply Follows.left rfl
  apply Follows.right run
  apply Follows.right hslice
  rcases hfinish with ⟨value, hvalue, rfl⟩ | ⟨cause, hvalue, rfl⟩
  · rw [hvalue]
    apply Follows.right rfl
    apply (follows_leaf along₁ _ (fun _ => rfl) fun _ _ => rfl).imp
    intro e e' c' s' _ tree
    exact tree.after passed (Nat.le_refl _)
  · rw [hvalue]
    exact .fail along₁

theorem integerValue_cons (column : Nat) {d : Char} {digits : List Char} (hd : d ≠ '-') :
    integerValue column (d :: digits) =
      if decimalValue (d :: digits) < Parser.integerBound then .ok (decimalValue (d :: digits))
      else .error (.parse (.integerTooLarge column)) := by
  unfold integerValue
  split
  next heq => exact absurd (List.cons.inj heq).1 hd
  next => rfl

theorem integerValue_minus (column : Nat) {digits : List Char} (h : digits ≠ []) :
    integerValue column ('-' :: digits) =
      if decimalValue digits ≤ Parser.integerBound then .ok (-decimalValue digits)
      else .error (.parse (.integerTooSmall column)) := by
  have hempty : digits.isEmpty = false := by simpa using h
  show (if digits.isEmpty = true then _ else _) = _
  rw [hempty, if_neg Bool.false_ne_true]

theorem follows_integer (along : f.Along c s) {d : Char} {text : List Char}
    (hrest : c.rest = d :: text)
    (hd : d.isDigit = true ∨ d = '-' ∧ text.head?.any Char.isDigit = true) :
    Follows f Parser.integer (integer f.text f.base) c s (Tree f 1 c s) := by
  obtain ⟨before, hbefore, hoffset⟩ := along.stands
  unfold Parser.integer integer
  apply follows_offset_bind along
  apply follows_rest_left
  apply follows_peek_right along
  rw [hrest, hoffset]
  rcases hd with hd | ⟨rfl, hd⟩
  · have hminus : d ≠ '-' := by
      rintro rfl
      exact absurd hd (by decide)
    have hlead : leadByte d ≠ '-' := by rwa [ne_eq, leadByte_eq_iff (by decide)]
    have hdigits : c.rest.takeWhile Char.isDigit = d :: text.takeWhile Char.isDigit := by
      rw [hrest, List.takeWhile_cons_of_pos hd]
    simp only [List.head?_cons, Option.map_some, Option.some_beq_some,
      beq_eq_false_iff_ne.mpr hminus, beq_eq_false_iff_ne.mpr hlead]
    apply follows_rest_left
    have hbefore₀ : f.text = before ++ ([] ++ c.rest) := hbefore
    apply follows_digits along hbefore₀ (by simpa [hrest] using hd)
    rw [List.nil_append, hdigits, integerValue_cons _ hminus, if_neg Bool.false_ne_true]
    split
    next => exact .inl ⟨_, rfl, rfl⟩
    next => exact .inr ⟨_, rfl, rfl⟩
  · have hlead : leadByte '-' = '-' := leadByte_eq_self (by decide)
    simp only [List.head?_cons, Option.map_some, hlead, BEq.rfl, if_true]
    apply (follows_skip_one along hrest (by decide)).bind
    rintro - - c₁ s₁ along₁ ⟨hrest₁, passed⟩
    have hbefore₁ : f.text = before ++ (['-'] ++ c₁.rest) := by rw [hbefore, hrest, hrest₁]; rfl
    have hdigits : c₁.rest.takeWhile Char.isDigit ≠ [] := by
      intro hnil
      rw [hrest₁] at hnil
      cases text with
      | nil => simp at hd
      | cons d text => rw [List.takeWhile_cons_of_pos (by simpa using hd)] at hnil; cases hnil
    apply follows_rest_left
    refine (follows_digits along₁ hbefore₁ (hrest₁ ▸ hd) ?_).imp ?_
    · rw [List.singleton_append, integerValue_minus _ hdigits]
      split
      next => exact .inl ⟨_, rfl, rfl⟩
      next => exact .inr ⟨_, rfl, rfl⟩
    · intro e e' c' s' _ tree
      exact tree.after passed (by decide)

/-! ## Lists -/

/-- Trees side by side. -/
def Trees (f : Setting) (n : Nat) (c : Cursor) (s : Session) (es es' : List Expr) (c' : Cursor)
    (s' : Session) : Prop :=
  es' = Expr.mapAll f.placing es ∧ Passed (fun names => Binder.exprs names es') n c s c' s'

theorem Trees.after {c₁ c' : Cursor} {s₁ s' : Session} {es es' : List Expr}
    (h : Trees f m c₁ s₁ es es' c' s') (hpassed : Silent k c s c₁ s₁) (hn : n ≤ k + m) :
    Trees f n c s es es' c' s' :=
  ⟨h.1, (h.2.after hpassed).weaken hn⟩

theorem follows_items {close : String} (hclose : 1 ≤ close.length) (hexpr : Below k expr)
    (along : f.Along c s) (hk : c.rest.length < k) (hm : c.rest.length < m)
    (hdepth : 16 * c.rest.length + 14 ≤ depth) :
    Follows f (Parser.items expr close m) (items f.text f.base depth close) c s
      (Trees f 1 c s) := by
  induction m generalizing c s depth with
  | zero => omega
  | succ m ih =>
    obtain ⟨depth, rfl⟩ : ∃ l, depth = l + 1 := Nat.exists_eq_add_one.mpr (by omega)
    rw [items, Parser.items]
    apply (hexpr f c s along hk (by omega)).bind
    rintro e _ c₁ s₁ along₁ ⟨rfl, first⟩
    apply (follows_eat along₁ hclose).bind
    rintro _ found c₂ s₂ along₂ ⟨rfl, closed⟩
    cases found with
    | true => exact .pure along₂ ⟨rfl, (first.trans closed.passed).weaken (by decide)⟩
    | false =>
      apply (follows_expect along₂ (by decide)).bind
      rintro _ _ c₃ s₃ along₃ ⟨-, comma⟩
      have hlength := (comma.after closed).length
      have hfirst := first.length
      apply (ih along₃ (by omega) (by omega) (by omega)).bind
      rintro es _ c₄ s₄ along₄ ⟨rfl, more⟩
      exact .pure along₄ ⟨rfl, (first.trans ((more.after comma).after closed)).weaken (by omega)⟩

theorem follows_list {close : String} (hclose : 1 ≤ close.length) (hexpr : Below k expr)
    (along : f.Along c s) (hk : c.rest.length < k) (hm : c.rest.length < m)
    (hdepth : 16 * c.rest.length + 15 ≤ depth) :
    Follows f (Parser.list m expr close) (list f.text f.base depth close) c s (Trees f 0 c s) := by
  obtain ⟨depth, rfl⟩ : ∃ l, depth = l + 1 := Nat.exists_eq_add_one.mpr (by omega)
  rw [list, Parser.list]
  apply (follows_eat along hclose).bind
  rintro _ found c₁ s₁ along₁ ⟨rfl, opened⟩
  cases found with
  | true => exact .pure along₁ ⟨rfl, opened.passed.weaken (Nat.zero_le _)⟩
  | false =>
    have hlength := opened.length
    apply (follows_items hclose hexpr along₁ (by omega) (by omega) (by omega)).imp
    intro es es' c' s' _ trees
    exact trees.after opened (Nat.zero_le _)

/-! ## Strings -/

/-- Segments and holes. -/
def Pieces (f : Setting) (n : Nat) (c : Cursor) (s : Session) (a b : List String × List Expr)
    (c' : Cursor) (s' : Session) : Prop :=
  b = (a.1, Expr.mapAll f.placing a.2) ∧ Passed (fun names => Binder.exprs names b.2) n c s c' s'

/-- What comes after a run of literal text: the end of the string, or a hole and more. -/
def afterRun (expr : Parser Expr) (start m : Nat) (text : List Char) (terminator : Terminator) :
    Parser (List String × List Expr) := do
  match terminator with
  | .nothing => throw (.unterminatedString (start + 1))
  | .backslash => throw (.danglingEscape (← Parser.offset))
  | .quote => return ([.ofList text], [])
  | .hole =>
    let hole ← expr
    Parser.expect "\x7d"
    let (segments, holes) ← Parser.segments expr start m
    return (.ofList text :: segments, hole :: holes)

/-- Segments whose first one has begun with `segment`. -/
def segmentsFrom (expr : Parser Expr) (start m : Nat) (segment : List Char) :
    Parser (List String × List Expr) := do
  let run := LiteralRun.scan (← Parser.rest)
  Parser.skip run.length
  afterRun expr start m (segment ++ run.text) run.terminator

theorem segments_succ (start : Nat) :
    Parser.segments expr start (m + 1) = segmentsFrom expr start m [] := by
  rw [Parser.segments, segmentsFrom]
  rfl

theorem run_segmentsFrom (start : Nat) (segment : List Char) :
    (segmentsFrom expr start m segment).run c =
      (afterRun expr start m (segment ++ (LiteralRun.scan c.rest).text)
        (LiteralRun.scan c.rest).terminator).run (c.advance (LiteralRun.scan c.rest).length) :=
  rfl

/-- Characters that say what they are, or what stands after a backslash, join the run. -/
theorem run_segmentsFrom_of_scan {l : Nat} {d : Char} (start : Nat) (segment : List Char)
    (h : LiteralRun.scan c.rest =
      { LiteralRun.scan (c.rest.drop l) with
        text := d :: (LiteralRun.scan (c.rest.drop l)).text
        length := (LiteralRun.scan (c.rest.drop l)).length + l }) :
    (segmentsFrom expr start m segment).run c =
      (segmentsFrom expr start m (segment ++ [d])).run (c.advance l) := by
  rw [run_segmentsFrom, run_segmentsFrom, advance_advance, h, List.append_assoc, Nat.add_comm l]
  rfl

/-- A character that ends no run says what it is. -/
theorem scan_cons {d : Char} {text : List Char} (hquote : d ≠ '\'') (hbackslash : d ≠ '\\')
    (hhole : ¬∃ tail, d = '$' ∧ text = '{' :: tail) :
    LiteralRun.scan (d :: text) =
      { LiteralRun.scan text with
        text := d :: (LiteralRun.scan text).text
        length := (LiteralRun.scan text).length + 1 } := by
  rw [LiteralRun.scan]
  · exact hquote
  · exact fun h => absurd h hbackslash
  · exact fun _ _ h => absurd h hbackslash
  · exact fun tail hd htext => hhole ⟨tail, hd, htext⟩

/-- Segments are read as the parser reads them where fewer than `k` characters are left. -/
def SegmentsBelow (f : Setting) (k : Nat) (expr : Parser Expr) (start : Nat) : Prop :=
  ∀ (c : Cursor) (s : Session) (segment : List Char) {m depth : Nat}, f.Along c s →
    c.rest.length < k → c.rest.length ≤ m → 16 * c.rest.length + 1 ≤ depth →
    Follows f (segmentsFrom expr start m segment) (segments f.text f.base depth start segment) c s
      (Pieces f 1 c s)

section Segments

variable {start : Nat} {segment text : List Char}

/-- One more character joins the run, which takes `l` characters of the text. -/
theorem follows_joined (shorter : SegmentsBelow f c.rest.length expr start)
    (hm : c.rest.length ≤ m) (hdepth : 16 * c.rest.length ≤ depth) {l : Nat} {d : Char}
    {s₁ : Session} (hl : 1 ≤ l) (hle : l ≤ c.rest.length)
    (hscan : LiteralRun.scan c.rest =
      { LiteralRun.scan (c.rest.drop l) with
        text := d :: (LiteralRun.scan (c.rest.drop l)).text
        length := (LiteralRun.scan (c.rest.drop l)).length + l })
    (hq : (segments f.text f.base (depth + 1) start segment).outcome s =
      (segments f.text f.base depth start (segment ++ [d])).outcome s₁)
    (along₁ : f.Along (c.advance l) s₁) (hbinder : s₁.binder = s.binder) :
    Follows f (segmentsFrom expr start m segment)
      (segments f.text f.base (depth + 1) start segment) c s (Pieces f 1 c s) := by
  have hrest : (c.advance l).rest.length + l = c.rest.length := by
    show (c.rest.drop l).length + l = _
    rw [List.length_drop]
    omega
  apply Follows.of_eq (run_segmentsFrom_of_scan start segment hscan) hq
  apply (shorter _ s₁ (segment ++ [d]) along₁ (by omega) (by omega) (by omega)).imp
  rintro a b c' s' _ ⟨hb, passed⟩
  exact ⟨hb, (passed.after ⟨Nat.le_of_eq hrest, hbinder⟩).weaken (by omega)⟩

theorem follows_unterminated (along : f.Along c s) (hrest : c.rest = []) :
    Follows f (segmentsFrom expr start m segment)
      (segments f.text f.base (depth + 1) start segment) c s (Pieces f 1 c s) := by
  rw [segments]
  apply follows_rest_right along
  apply Follows.of_eq (run_segmentsFrom start segment) rfl
  rw [hrest, LiteralRun.scan, advance_zero]
  exact .fail along

theorem follows_closing (along : f.Along c s) (hrest : c.rest = '\'' :: text) :
    Follows f (segmentsFrom expr start m segment)
      (segments f.text f.base (depth + 1) start segment) c s (Pieces f 1 c s) := by
  rw [segments]
  apply follows_rest_right along
  apply follows_rest_left
  rw [hrest, LiteralRun.scan]
  simp only [List.append_nil]
  apply (follows_skip_one along hrest (by decide)).bind
  rintro - - c₁ s₁ along₁ ⟨-, passed⟩
  exact .pure along₁ ⟨rfl, passed.passed⟩

/-- What stands after a backslash joins the run. -/
theorem follows_escape (shorter : SegmentsBelow f c.rest.length expr start) (along : f.Along c s)
    (hm : c.rest.length ≤ m) (hdepth : 16 * c.rest.length ≤ depth)
    (hrest : c.rest = '\\' :: text) :
    Follows f (segmentsFrom expr start m segment)
      (segments f.text f.base (depth + 1) start segment) c s (Pieces f 1 c s) := by
  have along₁ := along.advance 1
  have hone : utf8Length (c.rest.take 1) = 1 := by rw [hrest]; rfl
  have hrest₁ : (c.advance 1).rest = text := by
    show c.rest.drop 1 = text
    rw [hrest]
    rfl
  rw [hone] at along₁
  cases text with
  | nil =>
    rw [segments]
    apply follows_rest_right along
    apply Follows.of_eq (run_segmentsFrom start segment) rfl
    rw [hrest, LiteralRun.scan]
    apply Follows.right (Setting.Along.outcome_advance s 1)
    apply follows_rest_right along₁
    rw [hrest₁]
    exact follows_offset_bind along₁ (.fail along₁)
  | cons d text =>
    have along₂ := along₁.advance 1
    have hsize : utf8Length ((c.advance 1).rest.take 1) = d.utf8Size := by rw [hrest₁]; simp
    rw [hsize, advance_advance] at along₂
    refine follows_joined shorter hm hdepth (d := d) (by decide) (by simp [hrest]) ?_ ?_ along₂ rfl
    · rw [hrest, LiteralRun.scan]
      rfl
    · rw [segments, Reader.outcome_bind_of_ok along.outcome_rest, hrest]
      simp only []
      rw [Reader.outcome_bind_of_ok (Setting.Along.outcome_advance s 1),
        Reader.outcome_bind_of_ok along₁.outcome_rest, hrest₁]
      dsimp only
      rw [Reader.outcome_bind_of_ok (Setting.Along.outcome_advance _ _)]

theorem follows_hole (hexpr : Below k expr) (hk : c.rest.length < k)
    (shorter : SegmentsBelow f c.rest.length expr start) (along : f.Along c s)
    (hm : c.rest.length ≤ m) (hdepth : 16 * c.rest.length ≤ depth)
    (hrest : c.rest = '$' :: '{' :: text) :
    Follows f (segmentsFrom expr start m segment)
      (segments f.text f.base (depth + 1) start segment) c s (Pieces f 1 c s) := by
  rw [segments]
  apply follows_rest_right along
  apply follows_rest_left
  rw [hrest, LiteralRun.scan]
  simp only [List.append_nil]
  have htwo : utf8Length (c.rest.take 2) = 2 := by rw [hrest]; rfl
  apply (follows_skip along 2 htwo (by simp [hrest])).bind
  rintro - - c₁ s₁ along₁ ⟨-, opened⟩
  have hlength₁ := opened.length
  apply (hexpr f c₁ s₁ along₁ (by omega) (by omega)).bind
  rintro hole _ c₂ s₂ along₂ ⟨rfl, tree⟩
  have hlength₂ := tree.length
  apply (follows_expect along₂ (by decide)).bind
  rintro _ _ c₃ s₃ along₃ ⟨-, closed⟩
  have hlength₃ := closed.length
  obtain ⟨m, rfl⟩ : ∃ l, m = l + 1 := Nat.exists_eq_add_one.mpr (by omega)
  rw [segments_succ]
  apply (shorter c₃ s₃ [] along₃ (by omega) (by omega) (by omega)).bind
  rintro ⟨texts, holes⟩ _ c₄ s₄ along₄ ⟨rfl, more⟩
  have passed := (tree.trans (more.after closed)).after opened
  exact .pure along₄ ⟨rfl, passed.weaken (by omega)⟩

/-- A character that ends no run joins it. -/
theorem follows_plain (shorter : SegmentsBelow f c.rest.length expr start) (along : f.Along c s)
    (hm : c.rest.length ≤ m) (hdepth : 16 * c.rest.length ≤ depth) {d : Char}
    (hrest : c.rest = d :: text) (hquote : d ≠ '\'') (hbackslash : d ≠ '\\')
    (hhole : ¬∃ tail, d = '$' ∧ text = '{' :: tail) :
    Follows f (segmentsFrom expr start m segment)
      (segments f.text f.base (depth + 1) start segment) c s (Pieces f 1 c s) := by
  have along₁ := along.advance 1
  have hsize : utf8Length (c.rest.take 1) = d.utf8Size := by rw [hrest]; simp
  rw [hsize] at along₁
  refine follows_joined shorter hm hdepth (d := d) (by decide) (by simp [hrest]) ?_ ?_ along₁ rfl
  · have hplain := scan_cons hquote hbackslash hhole
    rw [hrest]
    exact hplain
  · rw [segments, Reader.outcome_bind_of_ok along.outcome_rest, hrest]
    split
    next heq => cases heq
    next heq => exact absurd (List.cons.inj heq).1 hquote
    next heq => exact absurd (List.cons.inj heq).1 hbackslash
    next tail heq => exact absurd ⟨tail, List.cons.inj heq⟩ hhole
    next heq =>
      obtain ⟨rfl, rfl⟩ := List.cons.inj heq
      rw [Reader.outcome_bind_of_ok (Setting.Along.outcome_advance _ _)]

end Segments

theorem follows_segmentsFrom (hexpr : Below k expr) (along : f.Along c s) (hk : c.rest.length < k)
    (hm : c.rest.length ≤ m) (hdepth : 16 * c.rest.length + 1 ≤ depth) (start : Nat)
    (segment : List Char) :
    Follows f (segmentsFrom expr start m segment) (segments f.text f.base depth start segment) c s
      (Pieces f 1 c s) := by
  generalize hlength : c.rest.length = length
  induction length using Nat.strong_induction_on generalizing c s m segment depth with
  | h length ih =>
  subst hlength
  have shorter : SegmentsBelow f c.rest.length expr start := by
    intro c₁ s₁ segment₁ m₁ depth₁ along₁ hless hm₁ hdepth₁
    exact ih _ hless along₁ (by omega) hm₁ hdepth₁ segment₁ rfl
  obtain ⟨depth, rfl⟩ : ∃ l, depth = l + 1 := Nat.exists_eq_add_one.mpr (by omega)
  have hdepth : 16 * c.rest.length ≤ depth := Nat.le_of_succ_le_succ hdepth
  rcases hrest : c.rest with _ | ⟨d, text⟩
  · exact follows_unterminated along hrest
  by_cases hquote : d = '\''
  · subst hquote
    exact follows_closing along hrest
  by_cases hbackslash : d = '\\'
  · subst hbackslash
    exact follows_escape shorter along hm hdepth hrest
  by_cases hhole : ∃ tail, d = '$' ∧ text = '{' :: tail
  · obtain ⟨tail, rfl, rfl⟩ := hhole
    exact follows_hole hexpr hk shorter along hm hdepth hrest
  · exact follows_plain shorter along hm hdepth hrest hquote hbackslash hhole

theorem follows_string (hexpr : Below k expr) (along : f.Along c s) {text : List Char}
    (hrest : c.rest = '\'' :: text) (hk : c.rest.length ≤ k) (hm : c.rest.length ≤ m)
    (hdepth : 16 * c.rest.length + 1 ≤ depth) :
    Follows f (Parser.string m expr) (string f.text f.base depth) c s (Tree f 1 c s) := by
  obtain ⟨depth, rfl⟩ : ∃ l, depth = l + 1 := Nat.exists_eq_add_one.mpr (by omega)
  obtain ⟨m, rfl⟩ : ∃ l, m = l + 1 := Nat.exists_eq_add_one.mpr (by simp [hrest] at hm; omega)
  rw [string, Parser.string]
  apply follows_offset_bind along
  apply (follows_skip_one along hrest (by decide)).bind
  rintro - - c₁ s₁ along₁ ⟨-, opened⟩
  rw [segments_succ]
  have hlength := opened.length
  apply (follows_segmentsFrom hexpr along₁ (by omega) (by omega) (by omega) c.offset []).bind
  rintro ⟨texts, holes⟩ _ c₂ s₂ along₂ ⟨rfl, passed⟩
  apply (follows_node along₂ c.offset).bind
  rintro n _ c₃ s₃ along₃ ⟨rfl, here⟩
  have htree := (passed.before here).after opened
  refine .pure along₃ ⟨?_, htree.weaken (Nat.le_add_right 1 _)⟩
  show Expr.string _ texts _ = Expr.string _ (texts.map id) _
  rw [List.map_id]

end OnePass

end Preflight
