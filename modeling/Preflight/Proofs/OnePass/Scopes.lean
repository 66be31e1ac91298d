import Preflight.Proofs.OnePass.Operands

/-! # Scopes

The variables of a lambda or a loop come into sight for its body. However the body comes out, the
names in sight are afterwards what they were before. -/

namespace Preflight
set_option autoImplicit false

namespace OnePass

variable {f : Setting} {c : Cursor} {s : Session} {expr : Parser Expr} {depth k m n : Nat}

/-! ## Parameter lists -/

theorem follows_moreParameters (along : f.Along c s) (hm : c.rest.length < m)
    (hdepth : 16 * c.rest.length + 1 ≤ depth) :
    Follows f (Parser.moreParameters m) (moreParameters f.text f.base depth) c s
      (Token (Option.map (List.map (NameAt.place f.base))) (fun _ => 0) c s) := by
  induction m generalizing c s depth with
  | zero => omega
  | succ m ih =>
    obtain ⟨depth, rfl⟩ : ∃ l, depth = l + 1 := Nat.exists_eq_add_one.mpr (by omega)
    rw [moreParameters, Parser.moreParameters]
    apply (follows_name? along).bind
    rintro v _ c₁ s₁ along₁ ⟨rfl, named⟩
    cases v with
    | none => exact .pure along₁ ⟨rfl, named⟩
    | some v =>
      have hlength₁ := named.length
      apply (follows_eat along₁ (by decide)).bind
      rintro _ found c₂ s₂ along₂ ⟨rfl, closed⟩
      cases found with
      | true => exact .pure along₂ ⟨rfl, (closed.after named).weaken (Nat.zero_le _)⟩
      | false =>
        have hlength₂ := closed.length
        apply (follows_eat along₂ (by decide)).bind
        rintro _ found c₃ s₃ along₃ ⟨rfl, comma⟩
        cases found with
        | false =>
          exact .pure along₃ ⟨rfl, ((comma.after closed).after named).weaken (Nat.zero_le _)⟩
        | true =>
          have hlength₃ := comma.length
          simp only [if_true] at hlength₁ hlength₃
          apply (ih along₃ (by omega) (by omega)).bind
          rintro vs _ c₄ s₄ along₄ ⟨rfl, more⟩
          have passed₄ := ((more.after comma).after closed).after named
          refine .pure along₄ ⟨?_, passed₄.weaken (Nat.zero_le _)⟩
          cases vs <;> rfl

/-- The parameters in their place. Where there are none, the cursor is back at `c`. -/
def Parameters (f : Setting) (c : Cursor) (s : Session) (params params' : Option (List NameAt))
    (c' : Cursor) (s' : Session) : Prop :=
  params' = params.map (List.map (NameAt.place f.base)) ∧
    Silent (if params.isSome then 1 else 0) c s c' s' ∧ (params = none → c' = c)

theorem follows_moveBack (along : f.Along c s) {c₀ c₁ : Cursor} {s₁ : Session}
    (along₁ : f.Along c₁ s₁) (passed : Silent 0 c s c₁ s₁) :
    Follows f (do
        set c
        return none) (do
        moveBack s
        return none) c₀ s₁ (Parameters f c s) := by
  have hback : s.offset ≤ s₁.offset := by
    rw [along.offset, along₁.offset]
    exact along.stands.offset_le along₁.stands passed.length
  apply Follows.of_ok rfl rfl
  · refine ⟨⟨⟨along.boundary, along₁.closed, ?_⟩, along₁.kept⟩, along.stands, along.offset, ?_⟩
    · rw [List.forall_mem_cons]
      exact ⟨⟨hback, along₁.boundary, along.boundary, passed.binder.symm⟩, along₁.trail⟩
    · exact (congrArg BinderState.next passed.binder).trans along.next
  · exact ⟨rfl, ⟨Nat.le_refl _, passed.binder⟩, fun _ => rfl⟩

/-- The cursor goes back where no parameter list ends, or no arrow follows it. -/
theorem follows_arrow (along : f.Along c s) {c₁ : Cursor} {s₁ : Session} (along₁ : f.Along c₁ s₁)
    (passed : Silent 1 c s c₁ s₁) (params : Option (List NameAt)) :
    Follows f (do
        if params.isSome && (← Parser.eat "=>") then
          return params
        set c
        return none) (do
        if let some params := params.map (List.map (NameAt.place f.base)) then
          if ← eat f.text "=>" then
            return some params
        moveBack s
        return none) c₁ s₁ (Parameters f c s) := by
  cases params with
  | none =>
    obtain ⟨arrow, c₂, run, -⟩ := Parser.reads_eat_any "=>" c₁ trivial
    apply Follows.left run
    exact follows_moveBack along along₁ (passed.weaken (Nat.zero_le _))
  | some params =>
    have heat : Follows f (Parser.eat "=>") (eat f.text "=>") c₁ s₁ _ :=
      follows_eat along₁ (by decide)
    apply heat.bind
    rintro _ arrow c₂ s₂ along₂ ⟨rfl, eaten⟩
    cases arrow with
    | true => exact .pure along₂ ⟨rfl, (eaten.after passed).weaken (Nat.le_add_right 1 _), nofun⟩
    | false => exact follows_moveBack along along₂ ((eaten.after passed).weaken (Nat.zero_le _))

theorem follows_parameters? (along : f.Along c s) {text : List Char} (hrest : c.rest = '(' :: text)
    (hm : c.rest.length ≤ m) (hdepth : 16 * c.rest.length ≤ depth) :
    Follows f (Parser.parameters? m) (parameters? f.text f.base depth) c s (Parameters f c s) := by
  rw [parameters?, Parser.parameters?]
  apply Follows.left rfl
  apply Follows.right (rfl : (get : Reader Session).outcome s = some (.ok s, s))
  apply (follows_skip_one along hrest (by decide)).bind
  rintro - - c₁ s₁ along₁ ⟨-, opened⟩
  apply (follows_eat along₁ (by decide)).bind
  rintro _ found c₂ s₂ along₂ ⟨rfl, closed⟩
  cases found with
  | true =>
    exact follows_arrow along along₂ ((closed.after opened).weaken (Nat.le_add_right 1 _)) (some [])
  | false =>
    have hlength₁ := opened.length
    have hlength₂ := closed.length
    apply (follows_moreParameters along₂ (by omega) (by omega)).bind
    rintro params _ c₃ s₃ along₃ ⟨rfl, passed⟩
    have passed₃ := ((passed.after closed).after opened).weaken (Nat.le_add_right 1 _)
    exact follows_arrow along along₃ passed₃ params

/-! ## Scopes -/

/-- The same comparison, where more names may have come into sight. -/
def Setting.inside (f : Setting) (locals : Names) : Setting :=
  { f with kept := fun names => locals <:+ names }

theorem Setting.Along.inside (h : f.Along c s) : (f.inside s.binder.locals).Along c s :=
  { h with kept := List.suffix_refl _ }

/-- The session with the old names in sight again. -/
def Session.restored (s : Session) (locals : Names) : Session :=
  { s with binder := { s.binder with locals } }

theorem truncate_of_suffix {b : BinderState} {locals : Names} (h : locals <:+ b.locals) :
    b.truncate locals.length = { b with locals } := by
  rw [BinderState.truncate, ← List.suffix_iff_eq_drop.mp h]

/-- Once the variables are out of sight again, what was bound in between is all that was done. -/
theorem BinderState.Brought.truncated {vars : List LocalVar} {b b' b'' : BinderState}
    {m : Names → Binder Unit} (h : BinderState.Brought vars b b') (h' : Effect m b' b'') :
    Effect (fun names => Binder.declareLocals vars names >>= m) b
      (b''.truncate b.locals.length) := by
  have hsuffix : b.locals <:+ b''.locals := by
    rw [h'.locals]
    exact h.locals
  have hsymbols := h.run_bind h'
  rw [truncate_of_suffix hsuffix]
  exact ⟨h'.globals.trans h.globals, rfl, hsymbols⟩

theorem Session.Sound.restored {text : List Char} {locals : Names} (h : s.Sound text)
    (hsuffix : locals <:+ s.binder.locals) : (s.restored locals).Sound text := by
  refine ⟨h.boundary, fun p hp => h.closed p ?_, h.trail⟩
  rcases List.mem_append.mp hp with hp | hp
  · exact List.mem_append_left _ (hsuffix.mem hp)
  · exact List.mem_append_right _ hp

/-- Whatever comes out of a body, the locals are what they were before. -/
theorem outcome_scope {β : Type} {q : Reader β} {result : Except Failure β} {s' : Session}
    (hq : q.outcome s = some (result, s')) (hsuffix : s.binder.locals <:+ s'.binder.locals) :
    Reader.outcome (bind (m := StateT Session Option) (ExceptT.run q) fun result =>
      leave s.binder.locals.length result) s = some (result, s'.restored s.binder.locals) := by
  have houtcome : Reader.outcome (bind (m := StateT Session Option) (ExceptT.run q) fun result =>
      leave s.binder.locals.length result) s =
      (q.outcome s).bind fun r => (leave s.binder.locals.length r.1 : Reader β).outcome r.2 := rfl
  rw [houtcome, hq, Session.restored, ← truncate_of_suffix hsuffix]
  cases result <;> rfl

theorem follows_scope {α β : Type} {p : Parser α} {q : Reader β}
    {post post' : α → β → Cursor → Session → Prop} (along : f.Along c s)
    (h : Follows (f.inside s.binder.locals) p q c s post)
    (hpost : ∀ a b c' s', post a b c' s' → post' a b c' (s'.restored s.binder.locals)) :
    Follows f p (bind (m := StateT Session Option) (ExceptT.run q) fun result =>
      leave s.binder.locals.length result) c s post' := by
  unfold Follows at h ⊢
  cases hrun : p.run c with
  | ok result =>
    rw [hrun] at h
    obtain ⟨b, s', hq, along', hb⟩ := h
    refine ⟨b, s'.restored s.binder.locals, outcome_scope hq along'.kept, ?_, hpost _ b _ s' hb⟩
    exact ⟨⟨along'.toSound.restored along'.kept, along.kept⟩, along'.stands, along'.offset,
      along'.next⟩
  | error cause =>
    rw [hrun] at h
    obtain ⟨s', hq, settled⟩ := h
    refine ⟨s'.restored s.binder.locals, outcome_scope hq settled.kept, ?_⟩
    exact ⟨settled.toSound.restored settled.kept, along.kept⟩

/-- A body was read with these variables in sight. -/
structure Scoped (vars : List LocalVar) (body : Expr) (n : Nat) (c : Cursor) (s : Session)
    (c' : Cursor) (s' : Session) : Prop where
  length : c'.rest.length + n ≤ c.rest.length
  globals : s'.binder.globals = s.binder.globals
  symbols : (do
    let inner ← Binder.declareLocals vars s.binder.names
    Binder.expr inner body : Binder Unit).run s.binder.symbols = .ok ((), s'.binder.symbols)

theorem Declared.body {vars : List LocalVar} {body : Expr} {c₁ c' : Cursor} {s₁ s' : Session}
    (h : Declared vars c s c₁ s₁)
    (h' : Passed (fun names => Binder.expr names body) n c₁ s₁ c' s') :
    Scoped vars body n c s c' s' :=
  ⟨h.rest ▸ h'.length, h'.effect.globals.trans h.globals, h.toBrought.run_bind h'.effect⟩

theorem Scoped.passed {vars : List LocalVar} {body : Expr} {c' : Cursor} {s' : Session}
    (h : Scoped vars body n c s c' s') :
    Passed (fun names => do
      let inner ← Binder.declareLocals vars names
      Binder.expr inner body) n c s c' (s'.restored s.binder.locals) :=
  ⟨h.length, h.globals, rfl, h.symbols⟩

theorem follows_lambdaScope (hexpr : Below k expr) (along : f.Along c s) (hk : c.rest.length < k)
    (hdepth : 16 * c.rest.length + 15 ≤ depth) (params : List NameAt) :
    Follows f (do
        let params ← params.mapM Parser.declare
        let body ← expr
        return (params, body))
      (lambdaScope f.text f.base depth s.binder.locals.length
        (params.map (NameAt.place f.base))) c s
      fun a b c' s' => b = (a.1.map (LocalVar.map f.placing), a.2.map f.placing) ∧
        Passed (fun names => do
          let inner ← Binder.declareLocals b.1 names
          Binder.expr inner b.2) 1 c s c' s' := by
  obtain ⟨depth, rfl⟩ : ∃ l, depth = l + 2 := Nat.exists_eq_add_of_le' (by omega)
  rw [lambdaScope, lambdaBody]
  have hbody : Follows (f.inside s.binder.locals) (do
        let params ← params.mapM Parser.declare
        let body ← expr
        return (params, body)) (do
        let params ← (params.map (NameAt.place f.base)).mapM declareLocal
        return (params, ← OnePass.expr f.text f.base depth)) c s fun a b c' s' =>
      b = (a.1.map (LocalVar.map f.placing), a.2.map f.placing) ∧ Scoped b.1 b.2 1 c s c' s' := by
    apply (follows_declares (growing_suffix s.binder.locals) along.inside params).bind
    rintro vars _ c₁ s₁ along₁ ⟨rfl, declared⟩
    have hrest := declared.rest
    apply (hexpr _ c₁ s₁ along₁ (by rwa [hrest]) (by rw [hrest]; omega)).bind
    rintro body _ c₂ s₂ along₂ ⟨rfl, passed⟩
    exact .pure along₂ ⟨rfl, declared.body passed⟩
  apply follows_scope along hbody
  rintro a b c' s' ⟨hb, hscoped⟩
  exact ⟨hb, hscoped.passed⟩

theorem follows_loopScope (hexpr : Below k expr) (along : f.Along c s) (hk : c.rest.length < k)
    (hdepth : 16 * c.rest.length + 15 ≤ depth) (item : NameAt) (index : Option NameAt) :
    Follows f (do
        let item ← Parser.declare item
        let index ← index.mapM Parser.declare
        let body ← expr
        return (item, index, body))
      (loopScope f.text f.base depth s.binder.locals.length (item.place f.base)
        (index.map (NameAt.place f.base))) c s
      fun a b c' s' =>
        b = (a.1.map f.placing, a.2.1.map (LocalVar.map f.placing), a.2.2.map f.placing) ∧
        Passed (fun names => do
          let inner ← Binder.declareLocals (b.1 :: b.2.1.toList) names
          Binder.expr inner b.2.2) 1 c s c' s' := by
  obtain ⟨depth, rfl⟩ : ∃ l, depth = l + 2 := Nat.exists_eq_add_of_le' (by omega)
  rw [loopScope, loopBody]
  have hbody : Follows (f.inside s.binder.locals) (do
        let item ← Parser.declare item
        let index ← index.mapM Parser.declare
        let body ← expr
        return (item, index, body)) (do
        let item ← declareLocal (item.place f.base)
        let index ← (index.map (NameAt.place f.base)).mapM declareLocal
        return (item, index, ← OnePass.expr f.text f.base depth)) c s fun a b c' s' =>
      b = (a.1.map f.placing, a.2.1.map (LocalVar.map f.placing), a.2.2.map f.placing) ∧
        Scoped (b.1 :: b.2.1.toList) b.2.2 1 c s c' s' := by
    apply (follows_declare (growing_suffix s.binder.locals) along.inside item).bind
    rintro item _ c₁ s₁ along₁ ⟨rfl, declared₁⟩
    apply (follows_declare? (growing_suffix s.binder.locals) along₁ index).bind
    rintro index _ c₂ s₂ along₂ ⟨rfl, declared₂⟩
    have declared := declared₁.append declared₂
    have hrest := declared.rest
    apply (hexpr _ c₂ s₂ along₂ (by rwa [hrest]) (by rw [hrest]; omega)).bind
    rintro body _ c₃ s₃ along₃ ⟨rfl, passed⟩
    exact .pure along₃ ⟨rfl, declared.body passed⟩
  apply follows_scope along hbody
  rintro a b c' s' ⟨hb, hscoped⟩
  exact ⟨hb, hscoped.passed⟩

/-! ## Lambdas and loops -/

theorem follows_lambda (hexpr : Below k expr) (along : f.Along c s) (hk : c.rest.length < k)
    (hdepth : 16 * c.rest.length + 16 ≤ depth) (start : Nat) (params : List NameAt) :
    Follows f (Parser.lambda expr start params)
      (lambda f.text f.base depth start (params.map (NameAt.place f.base))) c s (Tree f 1 c s) := by
  obtain ⟨depth, rfl⟩ : ∃ l, depth = l + 1 := Nat.exists_eq_add_one.mpr (by omega)
  have hsplit : Parser.lambda expr start params = (do
      let params ← params.mapM Parser.declare
      let body ← expr
      return (params, body)) >>= fun scope => do
        return .lambda (← Parser.node start) scope.1 scope.2 := by
    simp only [Parser.lambda, bind_assoc, pure_bind]
  rw [hsplit, lambda]
  apply Follows.right (rfl : (get : Reader Session).outcome s = some (.ok s, s))
  apply (follows_lambdaScope hexpr along hk (by omega) params).bind
  rintro ⟨vars, body⟩ _ c₁ s₁ along₁ ⟨rfl, passed⟩
  apply (follows_node along₁ start).bind
  rintro n _ c₂ s₂ along₂ ⟨rfl, here⟩
  exact .pure along₂ ⟨rfl, passed.before here⟩

theorem follows_parenthesized (hexpr : Below k expr) (along : f.Along c s) {text : List Char}
    (hrest : c.rest = '(' :: text) (hk : c.rest.length ≤ k) (hm : c.rest.length ≤ m)
    (hdepth : 16 * c.rest.length + 1 ≤ depth) :
    Follows f (Parser.parenthesized m expr) (parenthesized f.text f.base depth) c s
      (Tree f 1 c s) := by
  obtain ⟨depth, rfl⟩ : ∃ l, depth = l + 1 := Nat.exists_eq_add_one.mpr (by omega)
  rw [parenthesized, Parser.parenthesized]
  apply follows_offset_bind along
  apply (follows_parameters? along hrest hm (by omega)).bind
  rintro params _ c₁ s₁ along₁ ⟨rfl, passed, hback⟩
  have hlength := passed.length
  cases params with
  | some params =>
    simp only [Option.isSome_some, if_true] at hlength
    apply (follows_lambda hexpr along₁ (by omega) (by omega) c.offset params).imp
    intro e e' c' s' _ tree
    exact tree.after passed (Nat.le_add_left 1 _)
  | none =>
    obtain rfl := hback rfl
    apply (follows_skip_one along₁ hrest (by decide)).bind
    rintro - - c₂ s₂ along₂ ⟨-, opened⟩
    have hlength₂ := opened.length
    apply (hexpr f c₂ s₂ along₂ (by omega) (by omega)).bind
    rintro e _ c₃ s₃ along₃ ⟨rfl, tree⟩
    apply (follows_expect along₃ (by decide)).bind
    rintro _ _ c₄ s₄ along₄ ⟨-, closed⟩
    have htree := ((tree.before closed.passed).after opened).after passed
    exact .pure along₄ ⟨rfl, htree.weaken (by simp)⟩

theorem follows_loopVariable (along : f.Along c s) :
    Follows f Parser.loopVariable (loopVariable f.text f.base) c s
      (Token (NameAt.place f.base) (fun _ => 1) c s) := by
  apply (follows_skipBlanks along).bind
  rintro - - c₁ s₁ along₁ ⟨-, blanks⟩
  apply follows_column_bind along₁
  apply (follows_name? along₁).bind
  rintro v _ c₂ s₂ along₂ ⟨rfl, named⟩
  cases v with
  | none => exact .fail along₂
  | some v => exact .pure along₂ ⟨rfl, (named.after blanks).weaken (Nat.le_refl 1)⟩

theorem follows_loopVariables (along : f.Along c s) :
    Follows f Parser.loopVariables (loopVariables f.text f.base) c s
      (Token (fun v => (v.1.place f.base, v.2.map (NameAt.place f.base))) (fun _ => 1) c s) := by
  apply (follows_eat along (by decide)).bind
  rintro _ found c₁ s₁ along₁ ⟨rfl, opened⟩
  cases found with
  | true =>
    apply (follows_loopVariable along₁).bind
    rintro item _ c₂ s₂ along₂ ⟨rfl, item₂⟩
    apply (follows_expect along₂ (by decide)).bind
    rintro _ _ c₃ s₃ along₃ ⟨-, comma⟩
    apply (follows_loopVariable along₃).bind
    rintro index _ c₄ s₄ along₄ ⟨rfl, index₄⟩
    apply (follows_expect along₄ (by decide)).bind
    rintro _ _ c₅ s₅ along₅ ⟨-, closed⟩
    have passed := (((closed.after index₄).after comma).after item₂).after opened
    exact .pure along₅ ⟨rfl, passed.weaken (by simp)⟩
  | false =>
    apply (follows_loopVariable along₁).bind
    rintro item _ c₂ s₂ along₂ ⟨rfl, item₂⟩
    exact .pure along₂ ⟨rfl, (item₂.after opened).weaken (by simp)⟩

/-- The variables and the body of a loop, taken together. -/
theorem bind_loopBody {γ : Type} (item : NameAt) (index : Option NameAt)
    (rest : LocalVar → Option LocalVar → Expr → Parser γ) :
    (do
      let item ← Parser.declare item
      let index ← index.mapM Parser.declare
      let body ← expr
      rest item index body) = (do
      let item ← Parser.declare item
      let index ← index.mapM Parser.declare
      let body ← expr
      return (item, index, body)) >>= fun scope => rest scope.1 scope.2.1 scope.2.2 := by
  simp only [bind_assoc, pure_bind]

theorem follows_loop (hexpr : Below k expr) (along : f.Along c s) (hk : c.rest.length < k)
    (hdepth : 16 * c.rest.length + 1 ≤ depth) (start : Nat) :
    Follows f (Parser.loop expr start) (loop f.text f.base depth start) c s (Tree f 1 c s) := by
  obtain ⟨depth, rfl⟩ : ∃ l, depth = l + 1 := Nat.exists_eq_add_one.mpr (by omega)
  rw [loop, Parser.loop]
  apply (follows_loopVariables along).bind
  rintro ⟨item, index⟩ _ c₁ s₁ along₁ ⟨rfl, vars⟩
  apply (follows_skipBlanks along₁).bind
  rintro - - c₂ s₂ along₂ ⟨-, blanks⟩
  apply (follows_atKeyword along₂ "in").bind
  rintro _ found c₃ s₃ along₃ ⟨rfl, rfl, rfl, hstands⟩
  cases found with
  | false => exact follows_column_bind along₃ (.fail along₃)
  | true =>
    apply (follows_skip_token along₃ (hstands rfl)).bind
    rintro - - c₄ s₄ along₄ ⟨-, keyword⟩
    have passed₄ := ((keyword.after blanks).after vars)
    have hlength₄ := (passed₄.weaken (n := 1) (by simp)).length
    apply (hexpr f c₄ s₄ along₄ (by omega) (by omega)).bind
    rintro collection _ c₅ s₅ along₅ ⟨rfl, tree₅⟩
    have hlength₅ := tree₅.length
    apply (follows_expect along₅ (by decide)).bind
    rintro _ _ c₆ s₆ along₆ ⟨-, colon⟩
    have hlength₆ := colon.length
    rw [bind_loopBody]
    apply Follows.right (rfl : (get : Reader Session).outcome s₆ = some (.ok s₆, s₆))
    apply (follows_loopScope hexpr along₆ (by omega) (by omega) item index).bind
    rintro ⟨item, index, body⟩ _ c₇ s₇ along₇ ⟨rfl, scope₇⟩
    apply (follows_expect along₇ (by decide)).bind
    rintro _ _ c₈ s₈ along₈ ⟨-, closed⟩
    apply (follows_node along₈ start).bind
    rintro n _ c₉ s₉ along₉ ⟨rfl, here⟩
    have inside := ((scope₇.after colon).before closed.passed).before here
    have htree := (tree₅.trans inside).after passed₄
    exact .pure along₉ ⟨rfl, htree.weaken (by simp)⟩

theorem follows_arrayOrLoop (hexpr : Below k expr) (along : f.Along c s) {text : List Char}
    (hrest : c.rest = '[' :: text) (hk : c.rest.length ≤ k) (hm : c.rest.length ≤ m)
    (hdepth : 16 * c.rest.length + 1 ≤ depth) :
    Follows f (Parser.arrayOrLoop m expr) (arrayOrLoop f.text f.base depth) c s (Tree f 1 c s) := by
  obtain ⟨depth, rfl⟩ : ∃ l, depth = l + 1 := Nat.exists_eq_add_one.mpr (by omega)
  rw [arrayOrLoop, Parser.arrayOrLoop]
  apply follows_offset_bind along
  apply (follows_skip_one along hrest (by decide)).bind
  rintro - - c₁ s₁ along₁ ⟨-, opened⟩
  apply (follows_skipBlanks along₁).bind
  rintro - - c₂ s₂ along₂ ⟨-, blanks⟩
  have passed₂ := blanks.after opened
  have hlength₂ := passed₂.length
  apply (follows_atKeyword along₂ "for").bind
  rintro _ found c₃ s₃ along₃ ⟨rfl, rfl, rfl, hstands⟩
  cases found with
  | true =>
    apply (follows_skip_token along₃ (hstands rfl)).bind
    rintro - - c₄ s₄ along₄ ⟨-, keyword⟩
    have hlength₄ := keyword.length
    apply (follows_loop hexpr along₄ (by omega) (by omega) c.offset).imp
    intro e e' c' s' _ tree
    exact tree.after (keyword.after passed₂) (by omega)
  | false =>
    apply (follows_list (by decide) hexpr along₃ (by omega) (by omega) (by omega)).bind
    rintro items _ c₄ s₄ along₄ ⟨rfl, trees⟩
    apply (follows_node along₄ c.offset).bind
    rintro n _ c₅ s₅ along₅ ⟨rfl, here⟩
    exact .pure along₅ ⟨rfl, ((trees.before here).after passed₂).weaken (by omega)⟩

end OnePass

end Preflight
