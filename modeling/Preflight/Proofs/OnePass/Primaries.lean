import Preflight.Proofs.OnePass.Scopes

/-! # Primaries

Objects, names and whatever else may stand between two operators are read in one pass as the parser
reads them, if the expressions inside them are. -/

namespace Preflight
set_option autoImplicit false

namespace OnePass

variable {f : Setting} {c : Cursor} {s : Session} {expr : Parser Expr} {depth k m n : Nat}

/-! ## Objects -/

theorem exists_of_literal? {e : Expr} {text : String} (h : e.literal? = some text) :
    ∃ n, e = .string n [text] [] := by
  unfold Expr.literal? at h
  split at h
  next n _ => exact ⟨n, by rw [Option.some.inj h]⟩
  next => cases h

theorem literal?_map_placing (f : Setting) (e : Expr) :
    (e.map f.placing).literal? = e.literal? := by
  cases e with
  | string n segments holes =>
    rcases segments with _ | ⟨text, _ | ⟨text', segments⟩⟩ <;>
      rcases holes with _ | ⟨hole, holes⟩ <;> rfl
  | call n base => cases base <;> rfl
  | _ => rfl

/-- A quoted key binds nothing: it has no holes. -/
theorem follows_key (hexpr : Below k expr) (along : f.Along c s) (hk : c.rest.length < k)
    (hm : c.rest.length ≤ m) (hdepth : 16 * c.rest.length + 2 ≤ depth) :
    Follows f (Parser.key m expr) (key f.text f.base depth) c s fun key key' c' s' =>
      key' = key ∧ Passed quietly 1 c s c' s' := by
  obtain ⟨depth, rfl⟩ : ∃ l, depth = l + 1 := Nat.exists_eq_add_one.mpr (by omega)
  rw [key, Parser.key]
  apply (follows_skipBlanks along).bind
  rintro - - c₁ s₁ along₁ ⟨-, blanks⟩
  have hlength₁ := blanks.length
  apply follows_column_bind along₁
  apply follows_rest_left
  apply follows_peek_right along₁
  rw [map_leadByte_beq _ (by decide)]
  split
  next hquote =>
    obtain ⟨text, hrest⟩ := List.head?_eq_some_iff.mp (beq_iff_eq.mp hquote)
    apply (follows_string hexpr along₁ hrest (by omega) (by omega) (by omega)).bind
    rintro e _ c₂ s₂ along₂ ⟨rfl, tree⟩
    rw [literal?_map_placing]
    cases hliteral : e.literal? with
    | none => exact .fail along₂
    | some literal =>
      obtain ⟨n, rfl⟩ := exists_of_literal? hliteral
      exact .pure along₂ ⟨rfl, tree.after blanks⟩
  next =>
    apply (follows_name? along₁).bind
    rintro v _ c₂ s₂ along₂ ⟨rfl, named⟩
    cases v with
    | none => exact .fail along₂
    | some v => exact .pure along₂ ⟨rfl, (named.after blanks).passed⟩

/-- Properties side by side. -/
def Listed (f : Setting) (n : Nat) (c : Cursor) (s : Session) (ps ps' : List (Property Expr))
    (c' : Cursor) (s' : Session) : Prop :=
  ps' = Expr.mapProperties f.placing ps ∧
    Passed (fun names => Binder.properties names ps') n c s c' s'

theorem follows_properties (hexpr : Below k expr) (along : f.Along c s) (hk : c.rest.length < k)
    (hm : c.rest.length < m) (hdepth : 16 * c.rest.length + 3 ≤ depth) :
    Follows f (Parser.properties expr m) (properties f.text f.base depth) c s
      (Listed f 1 c s) := by
  induction m generalizing c s depth with
  | zero => omega
  | succ m ih =>
    obtain ⟨depth, rfl⟩ : ∃ l, depth = l + 1 := Nat.exists_eq_add_one.mpr (by omega)
    rw [properties, Parser.properties]
    apply (follows_skipBlanks along).bind
    rintro - - c₁ s₁ along₁ ⟨-, blanks⟩
    have hlength₁ := blanks.length
    apply follows_offset_bind along₁
    apply (follows_key hexpr along₁ (by omega) (by omega) (by omega)).bind
    rintro key _ c₂ s₂ along₂ ⟨rfl, key₂⟩
    have hlength₂ := key₂.length
    apply (follows_expect along₂ (by decide)).bind
    rintro _ _ c₃ s₃ along₃ ⟨-, colon⟩
    have hlength₃ := colon.length
    apply (hexpr f c₃ s₃ along₃ (by omega) (by omega)).bind
    rintro value _ c₄ s₄ along₄ ⟨rfl, tree⟩
    have hlength₄ := tree.length
    apply (follows_spanFrom along₄ c₁.offset).bind
    rintro span _ c₅ s₅ along₅ ⟨rfl, here⟩
    have hlength₅ := here.length
    apply (follows_eat along₅ (by decide)).bind
    rintro _ found c₆ s₆ along₆ ⟨rfl, closed⟩
    have hlength₆ := closed.length
    have first := (((tree.before here.passed).after colon).after_quiet key₂).after blanks
    cases found with
    | true => exact .pure along₆ ⟨rfl, (first.trans closed.passed).weaken (by simp)⟩
    | false =>
      apply (follows_expect along₆ (by decide)).bind
      rintro _ _ c₇ s₇ along₇ ⟨-, comma⟩
      have hlength₇ := comma.length
      apply (ih along₇ (by omega) (by omega) (by omega)).bind
      rintro ps _ c₈ s₈ along₈ ⟨rfl, more⟩
      have passed := first.trans ((more.after comma).after closed)
      exact .pure along₈ ⟨rfl, passed.weaken (by simp)⟩

theorem follows_object (hexpr : Below k expr) (along : f.Along c s) {text : List Char}
    (hrest : c.rest = '\x7b' :: text) (hk : c.rest.length ≤ k) (hm : c.rest.length ≤ m)
    (hdepth : 16 * c.rest.length + 1 ≤ depth) :
    Follows f (Parser.object m expr) (object f.text f.base depth) c s (Tree f 1 c s) := by
  obtain ⟨depth, rfl⟩ : ∃ l, depth = l + 1 := Nat.exists_eq_add_one.mpr (by omega)
  rw [object, Parser.object]
  apply follows_offset_bind along
  apply (follows_skip_one along hrest (by decide)).bind
  rintro - - c₁ s₁ along₁ ⟨-, opened⟩
  have hlength₁ := opened.length
  extract_lets finish finish'
  have hfinish (ps : List (Property Expr)) (c₂ : Cursor) (s₂ : Session) (along₂ : f.Along c₂ s₂)
      (passed : Passed (fun names => Binder.properties names (Expr.mapProperties f.placing ps)) 1
        c s c₂ s₂) :
      Follows f (finish ps) (finish' (Expr.mapProperties f.placing ps)) c₂ s₂ (Tree f 1 c s) := by
    apply (follows_node along₂ c.offset).bind
    rintro n _ c₃ s₃ along₃ ⟨rfl, here⟩
    exact .pure along₃ ⟨rfl, passed.before here⟩
  apply (follows_eat along₁ (by decide)).bind
  rintro _ found c₂ s₂ along₂ ⟨rfl, closed⟩
  have hlength₂ := closed.length
  cases found with
  | true => exact hfinish [] c₂ s₂ along₂ ((closed.after opened).passed.weaken (by simp))
  | false =>
    apply (follows_properties hexpr along₂ (by omega) (by omega) (by omega)).bind
    rintro ps _ c₃ s₃ along₃ ⟨rfl, listed⟩
    exact hfinish ps c₃ s₃ along₃ (((listed.after closed).after opened).weaken (by simp))

/-! ## Primaries -/

theorem follows_reference (along : f.Along c s) (name : NameAt) (word : String) :
    Follows f (do return .var ⟨name.span, ← Parser.freshIndex⟩ word) (do
        let index ← freshIndex
        reference index word
        return .var ⟨name.span.shift f.base, index⟩ word) c s (Tree f 0 c s) := by
  apply (follows_freshIndex along).bind
  rintro index _ c₁ s₁ along₁ ⟨rfl, passed⟩
  obtain ⟨s₂, run, along₂, bound⟩ :=
    exists_reference along₁ (name.span.shift f.base) (f.first + index) word
  apply Follows.right run
  exact .pure along₂ ⟨rfl, bound.after_quiet passed⟩

theorem follows_named (hexpr : Below k expr) (along : f.Along c s) (hk : c.rest.length < k)
    (hm : c.rest.length < m) (hdepth : 16 * c.rest.length + 1 ≤ depth) (start : Nat)
    (name : NameAt) :
    Follows f (Parser.named m expr start name)
      (named f.text f.base depth start (name.place f.base)) c s (Tree f 0 c s) := by
  obtain ⟨depth, rfl⟩ : ∃ l, depth = l + 1 := Nat.exists_eq_add_one.mpr (by omega)
  obtain ⟨word, span⟩ := name
  rw [named, Parser.named]
  dsimp only [NameAt.place]
  by_cases htrue : word = "true"
  · subst htrue
    exact follows_leaf along start (fun _ => rfl) fun _ _ => rfl
  by_cases hfalse : word = "false"
  · subst hfalse
    exact follows_leaf along start (fun _ => rfl) fun _ _ => rfl
  by_cases hnull : word = "null"
  · subst hnull
    exact follows_leaf along start (fun _ => rfl) fun _ _ => rfl
  simp only
  apply (follows_eat along (by decide)).bind
  rintro _ arrow c₁ s₁ along₁ ⟨rfl, passed₁⟩
  have hlength₁ := passed₁.length
  cases arrow with
  | true =>
    simp only [if_true] at hlength₁
    apply (follows_lambda hexpr along₁ (by omega) (by omega) start [⟨word, span⟩]).imp
    intro e e' c' s' _ tree
    exact tree.after passed₁ (Nat.zero_le _)
  | false =>
    apply (follows_eat along₁ (by decide)).bind
    rintro _ call c₂ s₂ along₂ ⟨rfl, passed₂⟩
    have hlength₂ := passed₂.length
    cases call with
    | true =>
      simp only [if_true] at hlength₂
      apply (follows_list (by decide) hexpr along₂ (by omega) (by omega) (by omega)).bind
      rintro args _ c₃ s₃ along₃ ⟨rfl, trees⟩
      apply (follows_node along₃ start).bind
      rintro n _ c₄ s₄ along₄ ⟨rfl, here⟩
      have passed₄ := ((trees.before here).after passed₂).after passed₁
      exact .pure along₄ ⟨rfl, passed₄.weaken (Nat.zero_le _)⟩
    | false =>
      apply (follows_reference along₂ ⟨word, span⟩ word).imp
      intro e e' c' s' _ tree
      exact tree.after (passed₂.after passed₁) (Nat.zero_le _)

/-- A primary that no mark announces is a number, or begins with a name. -/
theorem follows_word (hexpr : Below k expr) (along : f.Along c s) (hk : c.rest.length ≤ k)
    (hm : c.rest.length ≤ m) (hdepth : 16 * c.rest.length + 1 ≤ depth) {d : Char} {text : List Char}
    (hrest : c.rest = d :: text) (hblank : isBlank d = false)
    (hminus : d = '-' → text.head?.any Char.isDigit = true) :
    Follows f (Parser.word m expr c.offset d text)
      (if (leadByte d).isDigit || leadByte d == '-' then
        integer f.text f.base
      else do
        let some name ← name? f.text f.base
          | fail (.unexpected (.ofList (← OnePass.rest f.text)) (← column))
        named f.text f.base depth c.offset name) c s (Tree f 1 c s) := by
  unfold Parser.word
  have hlength : c.rest.length = text.length + 1 := by rw [hrest, List.length_cons]
  have hnumber : ((leadByte d).isDigit || leadByte d == '-') = (d.isDigit || d == '-') := by
    have hminus := map_leadByte_beq (some d) (show ('-' : Char).toNat < 128 by decide)
    rw [Option.map_some, Option.some_beq_some, Option.some_beq_some] at hminus
    rw [single_isDigit.leadByte, hminus]
  simp only [hnumber]
  split
  next hnum =>
    apply follows_integer along hrest
    rcases Bool.or_eq_true_iff.mp hnum with hdigit | hdash
    · exact .inl hdigit
    · have hdash := beq_iff_eq.mp hdash
      exact .inr ⟨hdash, hminus hdash⟩
  next =>
    apply (follows_name?_or_blanks along).bind
    rintro v _ c₁ s₁ along₁ ⟨⟨rfl, named⟩, hblanks⟩
    cases v with
    | some v =>
      have hlength₁ : c₁.rest.length + 1 ≤ c.rest.length := named.length
      apply (follows_named hexpr along₁ (by omega) (by omega) (by omega) c.offset v).imp
      intro e e' c' s' _ tree
      exact tree.after named (Nat.le_refl _)
    | none =>
      have hc₁ : c₁ = c := by
        rw [hblanks rfl, hrest, List.takeWhile_cons_of_neg (Bool.eq_false_iff.mp hblank)]
        exact advance_zero c
      subst hc₁
      apply follows_rest_right along₁
      rw [hrest]
      apply Follows.right (rfl : column.outcome s₁ = some (.ok (s₁.offset + 1), s₁))
      rw [along₁.offset]
      exact .fail along₁

/-- A minus sign in front of a primary belongs to a number. -/
theorem follows_primary (hexpr : Below k expr) (along : f.Along c s) (hk : c.rest.length ≤ k)
    (hm : c.rest.length ≤ m) (hdepth : 16 * c.rest.length + 2 ≤ depth)
    (hminus : ∀ text, c.rest.dropWhile isBlank = '-' :: text → text.head?.any Char.isDigit = true) :
    Follows f (Parser.primary m expr) (primary f.text f.base depth) c s (Tree f 1 c s) := by
  obtain ⟨depth, rfl⟩ : ∃ l, depth = l + 1 := Nat.exists_eq_add_one.mpr (by omega)
  rw [primary, Parser.primary]
  apply (follows_skipBlanks along).bind
  rintro - - c₁ s₁ along₁ ⟨hc₁, blanks⟩
  have hlength₁ := blanks.length
  have hrest₁ : c₁.rest = c.rest.dropWhile isBlank := by
    rw [hc₁]
    exact Parser.drop_length_takeWhile isBlank c.rest
  rw [← hrest₁] at hminus
  apply follows_offset_bind along₁
  apply follows_rest_left
  apply follows_peek_right along₁
  have weaken : ∀ e e' c' s', f.Along c' s' → Tree f 1 c₁ s₁ e e' c' s' → Tree f 1 c s e e' c' s' :=
    fun e e' c' s' _ tree => tree.after blanks (by decide)
  split
  next hrest =>
    rw [hrest]
    exact .fail along₁
  next hrest =>
    have hlead : leadByte '\'' = '\'' := leadByte_eq_self (by decide)
    rw [hrest, List.head?_cons, Option.map_some, hlead]
    exact (follows_string hexpr along₁ hrest (by omega) (by omega) (by omega)).imp weaken
  next hrest =>
    have hlead : leadByte '(' = '(' := leadByte_eq_self (by decide)
    rw [hrest, List.head?_cons, Option.map_some, hlead]
    exact (follows_parenthesized hexpr along₁ hrest (by omega) (by omega) (by omega)).imp weaken
  next hrest =>
    have hlead : leadByte '[' = '[' := leadByte_eq_self (by decide)
    rw [hrest, List.head?_cons, Option.map_some, hlead]
    exact (follows_arrayOrLoop hexpr along₁ hrest (by omega) (by omega) (by omega)).imp weaken
  next hrest =>
    have hlead : leadByte '\x7b' = '\x7b' := leadByte_eq_self (by decide)
    rw [hrest, List.head?_cons, Option.map_some, hlead]
    exact (follows_object hexpr along₁ hrest (by omega) (by omega) (by omega)).imp weaken
  next d text hquote hopen hbracket hbrace hrest =>
    have hne {x : Char} (hx : x.toNat < 128) (hd : d ≠ x) : leadByte d ≠ x := by
      rwa [ne_eq, leadByte_eq_iff hx]
    have hquote := hne (by decide) hquote
    have hopen := hne (by decide) hopen
    have hbracket := hne (by decide) hbracket
    have hbrace := hne (by decide) hbrace
    have hblank : isBlank d = false := by
      have hhead := head?_dropWhile isBlank c.rest
      rw [← hrest₁, hrest] at hhead
      exact hhead
    have hdigit (hdash : d = '-') := hminus text (hdash ▸ hrest)
    rw [hrest, List.head?_cons, Option.map_some]
    -- the match takes its last case, as the byte is none of the marks
    simp only
    exact (follows_word hexpr along₁ (by omega) (by omega) (by omega) hrest hblank hdigit).imp
      weaken

end OnePass

end Preflight
