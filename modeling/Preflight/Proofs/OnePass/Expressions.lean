import Preflight.Proofs.OnePass.Primaries

/-! # Expressions

Operands with what follows them, signs and binary operators are read in one pass as the parser reads
them. So are whole expressions, for any bound that the parser counts down from. -/

namespace Preflight
set_option autoImplicit false

namespace OnePass

variable {f : Setting} {c : Cursor} {s : Session} {expr operand : Parser Expr}
  {depth k m n : Nat}

/-- A tree grew around another one, whose names are bound. -/
def Grown (f : Setting) (c : Cursor) (s : Session) (inner e e' : Expr) (c' : Cursor)
    (s' : Session) : Prop :=
  e' = e.map f.placing ∧ ∃ m, (∀ names, Binder.expr names e' =
    Binder.expr names (inner.map f.placing) >>= fun _ => m names) ∧ Passed m 0 c s c' s'

theorem Grown.refl (inner : Expr) : Grown f c s inner inner (inner.map f.placing) c s :=
  ⟨rfl, quietly, fun _ => bind_pure_unit.symm, Silent.refl.passed⟩

/-- What grows around a larger tree grows around the smaller one. -/
theorem Grown.step {m' : Names → Binder Unit} {c₁ c' : Cursor} {s₁ s' : Session}
    {inner outer e e' : Expr} (h : Grown f c₁ s₁ outer e e' c' s')
    (houter : ∀ names, Binder.expr names (outer.map f.placing) =
      Binder.expr names (inner.map f.placing) >>= fun _ => m' names)
    (hpassed : Passed m' n c s c₁ s₁) : Grown f c s inner e e' c' s' := by
  obtain ⟨rfl, m, hm, passed⟩ := h
  refine ⟨rfl, fun names => m' names >>= fun _ => m names, ?_, (hpassed.trans passed).weaken ?_⟩
  · intro names
    rw [hm, houter, bind_assoc]
  · exact Nat.zero_le _

/-- What grew behind blanks grew around the same tree. -/
theorem Grown.behind {c₁ c' : Cursor} {s₁ s' : Session} {inner e e' : Expr}
    (h : Grown f c₁ s₁ inner e e' c' s') (blanks : Silent 0 c s c₁ s₁) :
    Grown f c s inner e e' c' s' :=
  h.step (fun _ => bind_pure_unit.symm) blanks.passed

/-- A tree that was read, and what grew around it. -/
theorem Tree.grow {c₁ c' : Cursor} {s₁ s' : Session} {inner inner' e e' : Expr}
    (h : Tree f n c s inner inner' c₁ s₁) (h' : Grown f c₁ s₁ inner e e' c' s') :
    Tree f n c s e e' c' s' := by
  obtain ⟨rfl, passed⟩ := h
  obtain ⟨rfl, m, hm, more⟩ := h'
  refine ⟨rfl, ?_⟩
  simp only [hm]
  exact passed.trans more

/-! ## Suffixes -/

/-- An opening parenthesis, looked for through the byte that stands there. -/
theorem follows_open {α β : Type} {post : α → β → Cursor → Session → Prop} {l : Bool → Parser α}
    {q q' : Reader β} (along : f.Along c s)
    (found : ∀ c' s', f.Along c' s' → Silent 1 c s c' s' → Follows f (l true) q c' s' post)
    (missing : ∀ c' s', f.Along c' s' → Silent 0 c s c' s' → Follows f (l false) q' c' s' post) :
    Follows f (Parser.eat "(" >>= l) (do
        skipBlanks f.text
        if (← peek f.text) == some '(' then
          advance 1
          q
        else
          q') c s post := by
  rw [Parser.eat, bind_assoc]
  apply (follows_skipBlanks along).bind
  rintro - - c₁ s₁ along₁ ⟨-, blanks⟩
  rw [bind_assoc]
  apply follows_rest_left
  apply follows_peek_right along₁
  rw [map_leadByte_beq _ (by decide)]
  cases hrest : c₁.rest with
  | nil => exact missing c₁ s₁ along₁ blanks
  | cons d text =>
    by_cases hd : d = '('
    · subst hd
      have hstands : "(".toList.isPrefixOf ('(' :: text) = true := rfl
      rw [hstands, if_pos rfl, if_pos (by simp), bind_assoc]
      apply (follows_skip_one along₁ hrest (by decide)).bind
      rintro - - c₂ s₂ along₂ ⟨-, opened⟩
      exact found c₂ s₂ along₂ ((opened.after blanks).weaken (by decide))
    · have hstands : "(".toList.isPrefixOf (d :: text) = false := by
        simpa [List.isPrefixOf] using Ne.symm hd
      rw [hstands, if_neg Bool.false_ne_true, if_neg (by simpa using hd)]
      exact missing c₁ s₁ along₁ blanks

/-- Suffixes are read as the parser reads them where fewer than `l` characters are left. -/
def SuffixesBelow (f : Setting) (l m n : Nat) (expr : Parser Expr) (start : Nat) : Prop :=
  ∀ (c : Cursor) (s : Session) (inner : Expr) {depth : Nat}, f.Along c s → c.rest.length < l →
    16 * c.rest.length + 1 ≤ depth →
    Follows f (Parser.suffixes m expr start n inner)
      (suffixes f.text f.base depth start (inner.map f.placing)) c s (Grown f c s inner)

section Suffixes

variable {start : Nat} {text : List Char}

/-- A property is read, or a function is called on the tree. -/
theorem follows_access (hexpr : Below k expr) (hk : c.rest.length < k)
    (more : SuffixesBelow f c.rest.length m n expr start) (along : f.Along c s)
    (hm : c.rest.length < m) (hdepth : 16 * c.rest.length ≤ depth) (hrest : c.rest = '.' :: text)
    (inner : Expr) :
    Follows f (do
        Parser.skip 1
        let some name ← Parser.name? | throw (.expectedPropertyName (← Parser.column))
        if ← Parser.eat "(" then
          let args ← Parser.list m expr ")"
          Parser.suffixes m expr start n
            (.call (← Parser.node start) (some inner) name.name args)
        else
          Parser.suffixes m expr start n (.member (← Parser.node start) inner name.name)) (do
        advance 1
        let some name ← name? f.text f.base | fail (.expectedPropertyName (← column))
        skipBlanks f.text
        if (← peek f.text) == some '(' then
          advance 1
          let args ← list f.text f.base depth ")"
          suffixes f.text f.base depth start
            (.call (← node f.base start) (some (inner.map f.placing)) name.name args)
        else
          suffixes f.text f.base depth start
            (.member (← node f.base start) (inner.map f.placing) name.name))
      c s (Grown f c s inner) := by
  apply (follows_skip_one along hrest (by decide)).bind
  rintro - - c₁ s₁ along₁ ⟨-, dot⟩
  have hlength₁ := dot.length
  apply (follows_name? along₁).bind
  rintro v _ c₂ s₂ along₂ ⟨rfl, named⟩
  have hlength₂ := named.length
  cases v with
  | none => exact follows_column_bind along₂ (.fail along₂)
  | some v =>
    have passed₂ := named.after dot
    apply follows_open along₂
    · intro c₃ s₃ along₃ opened
      have hlength₃ := opened.length
      apply (follows_list (by decide) hexpr along₃ (by omega) (by omega) (by omega)).bind
      rintro args _ c₄ s₄ along₄ ⟨rfl, trees⟩
      have hlength₄ := trees.length
      apply (follows_node along₄ start).bind
      rintro l _ c₅ s₅ along₅ ⟨rfl, here⟩
      have hlength₅ := here.length
      apply (more c₅ s₅ (.call l (some inner) v.name args) along₅ (by omega) (by omega)).imp
      intro e e' c' s' _ grown
      exact grown.step (fun _ => rfl) (((trees.before here).after opened).after passed₂)
    · intro c₃ s₃ along₃ here₃
      have hlength₃ := here₃.length
      apply (follows_node along₃ start).bind
      rintro l _ c₄ s₄ along₄ ⟨rfl, here⟩
      have hlength₄ := here.length
      apply (more c₄ s₄ (.member l inner v.name) along₄ (by omega) (by omega)).imp
      intro e e' c' s' _ grown
      exact grown.step (fun _ => bind_pure_unit.symm) ((here.after here₃).after passed₂)

theorem follows_subscript (hexpr : Below k expr) (hk : c.rest.length < k)
    (more : SuffixesBelow f c.rest.length m n expr start) (along : f.Along c s)
    (hdepth : 16 * c.rest.length ≤ depth) (hrest : c.rest = '[' :: text) (inner : Expr) :
    Follows f (do
        Parser.skip 1
        let key ← expr
        Parser.expect "]"
        Parser.suffixes m expr start n (.subscript (← Parser.node start) inner key)) (do
        advance 1
        let key ← OnePass.expr f.text f.base depth
        expect f.text "]"
        suffixes f.text f.base depth start
          (.subscript (← node f.base start) (inner.map f.placing) key))
      c s (Grown f c s inner) := by
  apply (follows_skip_one along hrest (by decide)).bind
  rintro - - c₁ s₁ along₁ ⟨-, opened⟩
  have hlength₁ := opened.length
  apply (hexpr f c₁ s₁ along₁ (by omega) (by omega)).bind
  rintro key _ c₂ s₂ along₂ ⟨rfl, tree⟩
  have hlength₂ := tree.length
  apply (follows_expect along₂ (by decide)).bind
  rintro _ _ c₃ s₃ along₃ ⟨-, closed⟩
  have hlength₃ := closed.length
  apply (follows_node along₃ start).bind
  rintro l _ c₄ s₄ along₄ ⟨rfl, here⟩
  have hlength₄ := here.length
  apply (more c₄ s₄ (.subscript l inner key) along₄ (by omega) (by omega)).imp
  intro e e' c' s' _ grown
  exact grown.step (fun _ => rfl) (((tree.before closed.passed).before here).after opened)

theorem follows_suffixes (hexpr : Below k expr) (along : f.Along c s) (hk : c.rest.length < k)
    (hm : c.rest.length < m) (hn : c.rest.length < n) (hdepth : 16 * c.rest.length + 1 ≤ depth)
    (start : Nat) (inner : Expr) :
    Follows f (Parser.suffixes m expr start n inner)
      (suffixes f.text f.base depth start (inner.map f.placing)) c s (Grown f c s inner) := by
  induction n generalizing c s inner depth with
  | zero => omega
  | succ n ih =>
    obtain ⟨depth, rfl⟩ : ∃ l, depth = l + 1 := Nat.exists_eq_add_one.mpr (by omega)
    rw [suffixes, Parser.suffixes]
    apply (follows_skipBlanks along).bind
    rintro - - c₁ s₁ along₁ ⟨-, blanks⟩
    have hlength₁ := blanks.length
    have more : SuffixesBelow f c₁.rest.length m n expr start :=
      fun c' s' inner' _ along' hless hdepth' =>
        ih along' (by omega) (by omega) (by omega) hdepth' inner'
    apply follows_rest_left
    apply follows_peek_right along₁
    split
    next text hrest =>
      have hlead : leadByte '.' = '.' := leadByte_eq_self (by decide)
      rw [hrest, List.head?_cons, Option.map_some, hlead]
      apply (follows_access hexpr (by omega) more along₁ (by omega) (by omega) hrest inner).imp
      exact fun e e' c' s' _ grown => grown.behind blanks
    next text hrest =>
      have hlead : leadByte '[' = '[' := leadByte_eq_self (by decide)
      rw [hrest, List.head?_cons, Option.map_some, hlead]
      apply (follows_subscript hexpr (by omega) more along₁ (by omega) hrest inner).imp
      exact fun e e' c' s' _ grown => grown.behind blanks
    next hdot hbracket =>
      have done : Follows f (pure inner) (pure (inner.map f.placing)) c₁ s₁ (Grown f c s inner) :=
        .pure along₁ ((Grown.refl inner).behind blanks)
      cases hrest : c₁.rest with
      | nil => exact done
      | cons d text =>
        have hdot : leadByte d ≠ '.' := by
          rw [ne_eq, leadByte_eq_iff (by decide)]
          rintro rfl
          exact hdot text hrest
        have hbracket : leadByte d ≠ '[' := by
          rw [ne_eq, leadByte_eq_iff (by decide)]
          rintro rfl
          exact hbracket text hrest
        split
        next heq => exact absurd (Option.some.inj heq) hdot
        next heq => exact absurd (Option.some.inj heq) hbracket
        next => exact done

end Suffixes

theorem follows_postfixed (hexpr : Below k expr) (along : f.Along c s) (hk : c.rest.length ≤ k)
    (hm : c.rest.length ≤ m) (hdepth : 16 * c.rest.length + 3 ≤ depth)
    (hminus : ∀ text, c.rest.dropWhile isBlank = '-' :: text → text.head?.any Char.isDigit = true) :
    Follows f (Parser.postfixed m expr) (postfixed f.text f.base depth) c s (Tree f 1 c s) := by
  obtain ⟨depth, rfl⟩ : ∃ l, depth = l + 1 := Nat.exists_eq_add_one.mpr (by omega)
  rw [postfixed, Parser.postfixed]
  apply (follows_skipBlanks along).bind
  rintro - - c₁ s₁ along₁ ⟨hc₁, blanks⟩
  have hlength₁ := blanks.length
  have hrest₁ : c₁.rest.dropWhile isBlank = c.rest.dropWhile isBlank := by
    rw [hc₁]
    show (c.rest.drop _).dropWhile isBlank = _
    rw [Parser.drop_length_takeWhile, List.dropWhile_idempotent]
  rw [← hrest₁] at hminus
  apply follows_offset_bind along₁
  apply (follows_primary hexpr along₁ (by omega) (by omega) (by omega) hminus).bind
  rintro inner _ c₂ s₂ along₂ ⟨rfl, passed⟩
  have hlength₂ := passed.length
  apply (follows_suffixes hexpr along₂ (by omega) (by omega) (by omega) (by omega) c₁.offset
    inner).imp
  intro e e' c' s' _ grown
  have htree : Tree f 1 c₁ s₁ inner (inner.map f.placing) c₂ s₂ := ⟨rfl, passed⟩
  exact (htree.grow grown).after blanks (by decide)

/-! ## Signs -/

/-- The byte after a minus sign tells whether the sign belongs to a number. -/
theorem unaryAt_eq_at? (text : List Char) {next : Option Char}
    (hnext : ∀ text', text = '-' :: text' → next = text'.head?.map leadByte) :
    unaryAt (text.head?.map leadByte) next = UnaryOp.at? text := by
  cases text with
  | nil => rfl
  | cons d text =>
    rw [List.head?_cons, Option.map_some]
    by_cases hnot : d = '!'
    · subst hnot
      have hlead : leadByte '!' = '!' := leadByte_eq_self (by decide)
      rw [hlead]
      rfl
    by_cases hminus : d = '-'
    · subst hminus
      have hlead : leadByte '-' = '-' := leadByte_eq_self (by decide)
      rw [hlead, unaryAt, UnaryOp.at?, hnext text rfl, single_isDigit.any_map]
    · have hnot' : leadByte d ≠ '!' := by rwa [ne_eq, leadByte_eq_iff (by decide)]
      have hminus' : leadByte d ≠ '-' := by rwa [ne_eq, leadByte_eq_iff (by decide)]
      unfold unaryAt UnaryOp.at?
      split
      next heq => exact absurd (Option.some.inj heq) hnot'
      next heq => exact absurd (Option.some.inj heq) hminus'
      next =>
        split
        next heq => exact absurd (List.cons.inj heq).1 hnot
        next heq => exact absurd (List.cons.inj heq).1 hminus
        next => rfl

/-- A sign is one character, and one byte. -/
theorem exists_cons_of_at? {chars : List Char} {op : UnaryOp} (h : UnaryOp.at? chars = some op) :
    ∃ d text, chars = d :: text ∧ d.toNat < 128 := by
  unfold UnaryOp.at? at h
  split at h
  next text => exact ⟨'!', text, rfl, by decide⟩
  next text => exact ⟨'-', text, rfl, by decide⟩
  next => cases h

/-- Operands are read alike where no sign stands in front of them. -/
def Operands (f : Setting) (k : Nat) (operand : Parser Expr) : Prop :=
  ∀ (c : Cursor) (s : Session) {depth : Nat}, f.Along c s → c.rest.length ≤ k →
    16 * c.rest.length + 3 ≤ depth → UnaryOp.at? (c.rest.dropWhile isBlank) = none →
    Follows f operand (postfixed f.text f.base depth) c s (Tree f 1 c s)

theorem getElem?_after_minus (along : f.Along c s) {text : List Char}
    (hrest : c.rest = '-' :: text) :
    (utf8Bytes f.text)[c.offset + 1]? = text.head?.map leadByte := by
  have hsplit : c.rest = ['-'] ++ text := hrest
  have hbyte := along.outcome_byteAt hsplit
  rw [along.offset] at hbyte
  exact Except.ok.inj (Prod.mk.inj (Option.some.inj hbyte)).1

theorem follows_prefixed (hoperand : Operands f k operand) (along : f.Along c s)
    (hk : c.rest.length ≤ k) (hn : c.rest.length ≤ n) (hdepth : 16 * c.rest.length + 4 ≤ depth) :
    Follows f (Parser.prefixed operand n) (prefixed f.text f.base depth) c s (Tree f 1 c s) := by
  obtain ⟨depth, rfl⟩ : ∃ l, depth = l + 1 := Nat.exists_eq_add_one.mpr (by omega)
  induction n generalizing c s depth with
  | zero =>
    -- nothing is left, so the reading passes no blanks and finds no sign either
    have hnil : c.rest = [] := List.length_eq_zero_iff.mp (Nat.le_zero.mp hn)
    obtain ⟨s₁, run, along₁, hbinder⟩ := exists_skipWhile single_isBlank along
    rw [hnil, List.takeWhile_nil, List.length_nil, advance_zero] at along₁
    rw [prefixed, Parser.prefixed]
    apply Follows.right run
    apply Follows.right (rfl : offset.outcome s₁ = some (.ok s₁.offset, s₁))
    apply Follows.right (rfl : (byteAt f.text (s₁.offset + 1)).outcome s₁ = some (.ok _, s₁))
    apply follows_peek_right along₁
    rw [hnil]
    apply (hoperand c s₁ along₁ hk (by omega) (by rw [hnil]; rfl)).imp
    intro e e' c' s' _ tree
    have blanks : Silent 0 c s c s₁ := ⟨Nat.le_refl _, hbinder⟩
    exact tree.after blanks (by decide)
  | succ n ih =>
    rw [prefixed, Parser.prefixed]
    apply (follows_skipBlanks along).bind
    rintro - - c₁ s₁ along₁ ⟨hc₁, blanks⟩
    have hlength₁ := blanks.length
    apply follows_offset_bind along₁
    apply follows_rest_left
    apply Follows.right (rfl : (byteAt f.text (c₁.offset + 1)).outcome s₁ = some (.ok _, s₁))
    apply follows_peek_right along₁
    rw [unaryAt_eq_at? c₁.rest fun text => getElem?_after_minus along₁]
    cases hop : UnaryOp.at? c₁.rest with
    | none =>
      have hrest₁ : c₁.rest.dropWhile isBlank = c₁.rest := by
        rw [hc₁]
        show (c.rest.drop _).dropWhile isBlank = c.rest.drop _
        rw [Parser.drop_length_takeWhile, List.dropWhile_idempotent]
      apply (hoperand c₁ s₁ along₁ (by omega) (by omega) (by rw [hrest₁, hop])).imp
      intro e e' c' s' _ tree
      exact tree.after blanks (by decide)
    | some op =>
      obtain ⟨d, text, hrest, hd⟩ := exists_cons_of_at? hop
      apply (follows_skip_one along₁ hrest hd).bind
      rintro - - c₂ s₂ along₂ ⟨-, sign⟩
      have hlength₂ := sign.length
      obtain ⟨depth, rfl⟩ : ∃ l, depth = l + 1 := Nat.exists_eq_add_one.mpr (by omega)
      apply (ih along₂ (by omega) (by omega) depth (by omega)).bind
      rintro e _ c₃ s₃ along₃ ⟨rfl, tree⟩
      apply (follows_node along₃ c₁.offset).bind
      rintro l _ c₄ s₄ along₄ ⟨rfl, here⟩
      exact .pure along₄ ⟨rfl, (((tree.before here).after sign).after blanks).weaken (by simp)⟩

/-! ## Binary operators -/

theorem follows_chain {p : Parser Expr} {tighter : List (List BinaryOp)}
    (hp : ∀ c s {depth}, f.Along c s → c.rest.length < k →
      16 * c.rest.length + tighter.length + 5 ≤ depth →
      Follows f p (binary f.text f.base depth tighter) c s (Tree f 1 c s))
    (along : f.Along c s) (hk : c.rest.length < k) (hn : c.rest.length < n)
    (hdepth : 16 * c.rest.length + tighter.length + 1 ≤ depth) (level : List BinaryOp)
    (start : Nat) (lhs : Expr) :
    Follows f (Parser.chain p level start n lhs)
      (chain f.text f.base depth level tighter start (lhs.map f.placing)) c s
      (Grown f c s lhs) := by
  induction n generalizing c s lhs depth with
  | zero => omega
  | succ n ih =>
    obtain ⟨depth, rfl⟩ : ∃ l, depth = l + 1 := Nat.exists_eq_add_one.mpr (by omega)
    rw [chain, Parser.chain, Parser.operator?, bind_assoc]
    apply (follows_skipBlanks along).bind
    rintro - - c₁ s₁ along₁ ⟨-, blanks⟩
    have hlength₁ := blanks.length
    rw [bind_assoc]
    apply follows_rest_left
    apply follows_rest_right along₁
    cases hop : level.find? fun op => op.token.toList.isPrefixOf c₁.rest with
    | none =>
      exact .pure along₁ ((Grown.refl lhs).behind blanks)
    | some op =>
      have hfound := List.find?_some hop
      have hstands := List.isPrefixOf_iff_prefix.mp hfound
      rw [bind_assoc]
      apply (follows_skip_token along₁ hstands).bind
      rintro - - c₂ s₂ along₂ ⟨-, token⟩
      have hlength₂ := token.length
      have htoken : 1 ≤ op.token.length := by cases op <;> decide
      rw [pure_bind]
      apply (hp c₂ s₂ along₂ (by omega) (by omega)).bind
      rintro rhs _ c₃ s₃ along₃ ⟨rfl, tree⟩
      have hlength₃ := tree.length
      apply (follows_node along₃ start).bind
      rintro l _ c₄ s₄ along₄ ⟨rfl, here⟩
      have hlength₄ := here.length
      apply (ih along₄ (by omega) (by omega) (by omega) (.binary l op lhs rhs)).imp
      intro e e' c' s' _ grown
      exact grown.step (fun _ => rfl) (((tree.before here).after token).after blanks)

theorem follows_binary (hoperand : ∀ c s {depth}, f.Along c s → c.rest.length ≤ k →
      16 * c.rest.length + 4 ≤ depth →
      Follows f operand (prefixed f.text f.base depth) c s (Tree f 1 c s)) (hkm : k ≤ m)
    (levels : List (List BinaryOp)) (along : f.Along c s) (hk : c.rest.length ≤ k)
    (hdepth : 16 * c.rest.length + levels.length + 5 ≤ depth) :
    Follows f (Parser.binary m operand levels) (binary f.text f.base depth levels) c s
      (Tree f 1 c s) := by
  obtain ⟨depth, rfl⟩ : ∃ l, depth = l + 1 := Nat.exists_eq_add_one.mpr (by omega)
  induction levels generalizing c s depth with
  | nil =>
    rw [binary, Parser.binary]
    exact hoperand c s along hk (by omega)
  | cons level tighter ih =>
    rw [binary, Parser.binary]
    apply (follows_skipBlanks along).bind
    rintro - - c₁ s₁ along₁ ⟨-, blanks⟩
    have hlength₁ := blanks.length
    apply follows_offset_bind along₁
    rw [List.length_cons] at hdepth
    obtain ⟨depth, rfl⟩ : ∃ l, depth = l + 1 := Nat.exists_eq_add_one.mpr (by omega)
    apply (ih along₁ (by omega) depth (by omega)).bind
    rintro lhs _ c₂ s₂ along₂ ⟨rfl, passed⟩
    have hlength₂ := passed.length
    have htighter : ∀ c s {depth}, f.Along c s → c.rest.length < k →
        16 * c.rest.length + tighter.length + 5 ≤ depth →
        Follows f (Parser.binary m operand tighter) (binary f.text f.base depth tighter) c s
          (Tree f 1 c s) := by
      intro c s depth along hlt hdepth
      obtain ⟨depth, rfl⟩ : ∃ l, depth = l + 1 := Nat.exists_eq_add_one.mpr (by omega)
      exact ih along (Nat.le_of_lt hlt) depth hdepth
    apply (follows_chain htighter along₂ (by omega) (by omega) (by omega) level c₁.offset lhs).imp
    intro e e' c' s' _ grown
    have htree : Tree f 1 c₁ s₁ lhs (lhs.map f.placing) c₂ s₂ := ⟨rfl, passed⟩
    exact (htree.grow grown).after blanks (by decide)

/-! ## Whole expressions -/

/-- Where no sign stands, a minus sign belongs to a number. -/
theorem operands_postfixed (hexpr : Below k expr) (hn : k ≤ n) :
    Operands f k (Parser.postfixed n expr) := by
  intro c s depth along hk hdepth hnone
  apply follows_postfixed hexpr along hk (by omega) hdepth
  intro text hrest
  rw [hrest] at hnone
  by_contra hdigit
  simp [UnaryOp.at?, hdigit] at hnone

/-- A question mark behind a tree makes it the condition of two branches. -/
theorem follows_branches (hexpr : Below k expr) (along : f.Along c s) (hk : c.rest.length < k)
    (hdepth : 16 * c.rest.length ≤ depth) (start : Nat) (condition : Expr) :
    Follows f (do
        Parser.skipBlanks
        if (← Parser.rest).head? == some '?' then
          Parser.skip 1
          let ifTrue ← expr
          Parser.expect ":"
          let ifFalse ← expr
          return .ternary (← Parser.node start) condition ifTrue ifFalse
        else
          return condition) (do
        skipBlanks f.text
        if (← peek f.text) == some '?' then
          advance 1
          let ifTrue ← OnePass.expr f.text f.base depth
          expect f.text ":"
          let ifFalse ← OnePass.expr f.text f.base depth
          return .ternary (← node f.base start) (condition.map f.placing) ifTrue ifFalse
        else
          return condition.map f.placing)
      c s (Grown f c s condition) := by
  apply (follows_skipBlanks along).bind
  rintro - - c₁ s₁ along₁ ⟨-, blanks⟩
  have hlength₁ := blanks.length
  apply follows_rest_left
  apply follows_peek_right along₁
  rw [map_leadByte_beq _ (by decide)]
  split
  next hquestion =>
    obtain ⟨text, hrest⟩ := List.head?_eq_some_iff.mp (beq_iff_eq.mp hquestion)
    apply (follows_skip_one along₁ hrest (by decide)).bind
    rintro - - c₂ s₂ along₂ ⟨-, question⟩
    have hlength₂ := question.length
    apply (hexpr f c₂ s₂ along₂ (by omega) (by omega)).bind
    rintro ifTrue _ c₃ s₃ along₃ ⟨rfl, tree₃⟩
    have hlength₃ := tree₃.length
    apply (follows_expect along₃ (by decide)).bind
    rintro _ _ c₄ s₄ along₄ ⟨-, colon⟩
    have hlength₄ := colon.length
    apply (hexpr f c₄ s₄ along₄ (by omega) (by omega)).bind
    rintro ifFalse _ c₅ s₅ along₅ ⟨rfl, tree₅⟩
    apply (follows_node along₅ start).bind
    rintro l _ c₆ s₆ along₆ ⟨rfl, here⟩
    have passed := (tree₃.trans ((tree₅.before here).after colon)).after question
    have grown := Grown.refl (f := f) (c := c₆) (s := s₆)
      (.ternary l condition ifTrue ifFalse)
    exact .pure along₆ ((grown.step (fun _ => rfl) passed).behind blanks)
  next => exact .pure along₁ ((Grown.refl condition).behind blanks)

theorem follows_conditional (hexpr : Below k expr) (along : f.Along c s) (hk : c.rest.length ≤ k)
    (hn : k ≤ n) (hdepth : 16 * c.rest.length + 13 ≤ depth) :
    Follows f (Parser.conditional n expr) (OnePass.expr f.text f.base depth) c s
      (Tree f 1 c s) := by
  obtain ⟨depth, rfl⟩ : ∃ l, depth = l + 1 := Nat.exists_eq_add_one.mpr (by omega)
  rw [OnePass.expr, Parser.conditional]
  apply (follows_skipBlanks along).bind
  rintro - - c₁ s₁ along₁ ⟨-, blanks⟩
  have hlength₁ := blanks.length
  apply follows_offset_bind along₁
  have hprefixed : ∀ c₂ s₂ {depth₂}, f.Along c₂ s₂ → c₂.rest.length ≤ k →
      16 * c₂.rest.length + 4 ≤ depth₂ →
      Follows f (Parser.prefixed (Parser.postfixed n expr) n) (prefixed f.text f.base depth₂) c₂ s₂
        (Tree f 1 c₂ s₂) :=
    fun _ _ _ along₂ hlength₂ =>
      follows_prefixed (operands_postfixed hexpr hn) along₂ hlength₂ (hlength₂.trans hn)
  have hlevels : BinaryOp.levels.length = 7 := rfl
  apply (follows_binary hprefixed hn BinaryOp.levels along₁ (by omega) (by omega)).bind
  rintro condition _ c₂ s₂ along₂ ⟨rfl, tested⟩
  have hlength₂ := tested.length
  have htree : Tree f 1 c₁ s₁ condition (condition.map f.placing) c₂ s₂ := ⟨rfl, tested⟩
  apply (follows_branches hexpr along₂ (by omega) (by omega) c₁.offset condition).imp
  intro e e' c' s' _ grown
  exact (htree.grow grown).after blanks (by decide)

/-! The bound that the parser counts down from is not what ends a reading: at the end of the text
there is no operand to be read. -/

theorem run_skipBlanks_bind_of_nil {α : Type} {l : Unit → Parser α} (hnil : c.rest = []) :
    (Parser.skipBlanks >>= l).run c = (l ()).run c := by
  obtain ⟨text, start, next⟩ := c
  subst hnil
  rfl

theorem run_offset_bind {α : Type} {l : Nat → Parser α} :
    (Parser.offset >>= l).run c = (l c.offset).run c :=
  rfl

theorem run_postfixed_of_nil (hnil : c.rest = []) :
    (Parser.postfixed m expr).run c = .error .unexpectedEnd := by
  obtain ⟨text, start, next⟩ := c
  subst hnil
  rfl

theorem run_prefixed_of_nil {cause : SyntaxError} (hnil : c.rest = [])
    (h : operand.run c = .error cause) : (Parser.prefixed operand n).run c = .error cause := by
  cases n with
  | zero => exact h
  | succ n =>
    obtain ⟨text, start, next⟩ := c
    subst hnil
    exact h

theorem run_binary_of_nil {cause : SyntaxError} (hnil : c.rest = [])
    (h : operand.run c = .error cause) (levels : List (List BinaryOp)) :
    (Parser.binary m operand levels).run c = .error cause := by
  induction levels with
  | nil => exact h
  | cons level tighter ih =>
    rw [Parser.binary, run_skipBlanks_bind_of_nil hnil, run_offset_bind, StateT.run_bind, ih]
    rfl

theorem run_conditional_of_nil (hnil : c.rest = []) :
    (Parser.conditional n expr).run c = .error .unexpectedEnd := by
  have hoperand : (Parser.prefixed (Parser.postfixed n expr) n).run c = .error .unexpectedEnd :=
    run_prefixed_of_nil hnil (run_postfixed_of_nil hnil)
  rw [Parser.conditional, run_skipBlanks_bind_of_nil hnil, run_offset_bind, StateT.run_bind,
    run_binary_of_nil hnil hoperand]
  rfl

theorem follows_of_nil {p : Parser Expr} (along : f.Along c s) (hnil : c.rest = [])
    (hp : p.run c = .error .unexpectedEnd) (n : Nat)
    (hdepth : 16 * c.rest.length + 13 ≤ depth) :
    Follows f p (OnePass.expr f.text f.base depth) c s (Tree f 1 c s) := by
  have nothing : Below 0 p := fun _ _ _ _ _ hlt => absurd hlt (Nat.not_lt_zero _)
  have hlength : c.rest.length = 0 := by rw [hnil, List.length_nil]
  have follows := follows_conditional (n := n) nothing along (by omega) (by omega) hdepth
  unfold Follows at follows ⊢
  rwa [run_conditional_of_nil hnil, ← hp] at follows

theorem below_expr (n : Nat) : Below (n + 1) (Parser.expr n) := by
  induction n with
  | zero =>
    intro f c s depth along hk hdepth
    exact follows_of_nil along (List.length_eq_zero_iff.mp (by omega)) rfl 0 hdepth
  | succ n ih =>
    intro f c s depth along hk hdepth
    rw [Parser.expr]
    generalize n + 1 = m at ih hk ⊢
    exact follows_conditional ih along (by omega) (by omega) hdepth

/-- An expression that is the whole text is read in one pass as the parser reads it. -/
theorem follows_whole (along : f.Along c s) (hrest : c.rest = f.text)
    (hdepth : 16 * f.text.length + 13 ≤ depth) :
    Follows f (do
        if '\n' ∈ f.text then
          throw .severalLines
        Parser.whole f.text.length) (whole f.text f.base depth) c s (Tree f 1 c s) := by
  unfold whole Parser.whole
  split
  next => exact .fail along
  next =>
    rw [← hrest] at hdepth
    apply (below_expr f.text.length f c s along (by rw [hrest]; omega) hdepth).bind
    rintro e _ c₁ s₁ along₁ ⟨rfl, tree⟩
    apply (follows_skipBlanks along₁).bind
    rintro - - c₂ s₂ along₂ ⟨-, blanks⟩
    apply follows_rest_left
    have hoffset : OnePass.offset.outcome s₂ = some (.ok c₂.offset, s₂) := by
      rw [← along₂.offset]
      rfl
    apply Follows.right hoffset
    obtain ⟨before, htext, hbefore⟩ := along₂.stands
    have hend : (c₂.offset == utf8Length f.text) = c₂.rest.isEmpty := by
      rw [htext, utf8Length_append, hbefore]
      cases c₂.rest with
      | nil => simp
      | cons d text =>
        have hpos := d.utf8Size_pos
        rw [utf8Length_cons, List.isEmpty_cons, beq_eq_false_iff_ne]
        omega
    rw [hend]
    split
    next =>
      exact .pure along₂ ⟨rfl, (tree.before blanks.passed).weaken (by decide)⟩
    next =>
      apply follows_rest_right along₂
      exact follows_column_bind along₂ (.fail along₂)

end OnePass

end Preflight
