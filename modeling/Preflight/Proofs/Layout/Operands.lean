import Preflight.Proofs.Layout.Cursor

/-! # How operands are laid

What brackets and quotes hold is laid between them. There is one lemma for each rule. -/

namespace Preflight
set_option autoImplicit false

namespace Parser

variable {line : List Char} {fit : List Char → Expr → Prop} {k start : Nat} {rs : List Region}
  {expr : Parser Expr}

/-- The rule for nested expressions, where at most `k` characters are left. -/
structure Nested (line : List Char) (fit : List Char → Expr → Prop) (k : Nat) (expr : Parser Expr) :
    Prop where
  lays : Lays line fit k expr fun e => [.expr e]
  again : ∀ m, RetracesNested k m expr (Parser.expr m)

theorem ensures_rest_bind {β : Type} {pre : Cursor → Prop} {f : List Char → Parser β}
    {post : β → Cursor → Prop}
    (h : ∀ text, Ensures (fun c => pre c ∧ c.rest = text) (f text) post) :
    Ensures pre (rest >>= f) post :=
  fun c hc => h c.rest c ⟨hc, rfl⟩

theorem still_bind {α β : Type} {p : Parser α} {f : α → Parser β} {result : α → Prop} {n : Nat}
    {post : β → Cursor → Prop} (h : Still p result)
    (hf : ∀ a, result a → Ensures (Cursor.Behind line fit start rs n) (f a) post) :
    Ensures (Cursor.Behind line fit start rs n) (p >>= f) post := by
  intro c hc b c' run
  obtain ⟨a, c₁, run₁, ha, hrest, hoffset⟩ := h c
  obtain ⟨a', c₂, run₂, run⟩ := run_bind_eq_ok_iff.mp run
  cases run₁.symm.trans run₂
  have pass : c.Passes [] c₁ := .of_still hrest hoffset
  refine hf a ha c₁ ⟨hc.stands.passes pass, ?_, ?_⟩ b c' run
  · rw [hoffset]
    exact hc.placed
  · rw [hrest]
    exact hc.room

theorem ensures_throw_bind {α β : Type} {pre : Cursor → Prop} {cause : SyntaxError}
    {f : α → Parser β} {post : β → Cursor → Prop} :
    Ensures pre (throw cause >>= f) post := by
  rintro c - b c' run
  cases run

theorem moves_skip {n : Nat} (m : Nat) : Moves n (skip m) fun _ => 0 :=
  Retraces.moves (fun _ _ => retraces_skip m) fun _ _ _ _ => Nat.zero_le _

/-- The cursor stands in the line where a text begins. -/
structure Begins (line : List Char) (start : Nat) (text : List Char) (c : Cursor) : Prop where
  stands : c.At line
  rest : c.rest = text
  offset : c.offset = start

namespace Begins

variable {β : Type} {text : List Char} {post : β → Cursor → Prop}

theorem offset_bind {f : Nat → Parser β} (h : Ensures (Begins line start text) (f start) post) :
    Ensures (Begins line start text) (Parser.offset >>= f) post := by
  intro c hc
  obtain rfl := hc.offset
  exact h c hc

theorem rest_bind {f : List Char → Parser β} (h : Ensures (Begins line start text) (f text) post) :
    Ensures (Begins line start text) (Parser.rest >>= f) post := by
  intro c hc
  obtain rfl := hc.rest
  exact h c hc

end Begins

theorem Begins.behind {text : List Char} {c : Cursor} (h : Begins line start text c)
    (fit : List Char → Expr → Prop) : c.Behind line fit start [] text.length :=
  ⟨h.stands, .nil h.offset.ge, (congrArg List.length h.rest).le⟩

/-- The node of what was read is its frame. -/
theorem frames_node {n : Nat} {f : Node → Expr} (hnode : ∀ nd, (f nd).node = nd)
    (hregions : ∀ nd, (f nd).regions = rs) (hplain : ∀ nd, (f nd).isString = false) :
    Ensures (Cursor.Behind line fit start rs n) (do return f (← node start))
      (Cursor.Frames line fit start n) := by
  rintro c hc e c' run
  cases run
  refine ⟨hc.stands, ?_, ?_, fun h => ?_, hc.room⟩
  · rw [Expr.span, hnode]
  · rw [hregions]
    exact hc.placed
  · rw [hplain] at h
    cases h

/-! ## Strings and numbers -/

theorem lays_segments (nested : Nested line fit k expr) (s n : Nat) :
    Lays line fit k (segments expr s n) fun r => r.2.map .expr := by
  induction n with
  | zero => exact fun _ _ => .throw
  | succ n ih =>
    intro start rs
    refine ensures_rest_bind fun text => Ensures.imp ?_ (fun _ h => h.1) fun _ _ => id
    refine (moves_skip _).behind.bind fun _ => ?_
    split
    next => exact .throw
    next => exact (Moves.of_still still_offset).behind.bind fun _ => .throw
    next =>
      refine .pure fun c hc => ?_
      show Cursor.Behind line fit start (rs ++ []) k c
      rwa [List.append_nil]
    next =>
      refine (nested.lays _ _).bind fun hole => ?_
      refine (moves_expect "\x7d" (by decide)).behind.bind fun _ => ?_
      refine (ih.behind (Nat.sub_le _ _)).bind fun r => .pure fun c hc => ?_
      rwa [List.append_assoc] at hc

theorem Begins.skip_one {c : Char} {text : List Char} {d : Cursor}
    (h : Begins line start (c :: text) d) (fit : List Char → Expr → Prop) :
    (d.advance 1).Behind line fit start [] text.length := by
  have pass := Cursor.Passes.advance d 1
  have hrest : (d.advance 1).rest = text := congrArg (List.drop 1) h.rest
  refine ⟨h.stands.passes pass, .nil ?_, (congrArg List.length hrest).le⟩
  rw [pass.offset, h.offset]
  exact Nat.le_add_right _ _

theorem Begins.skip_one_bind (fit : List Char → Expr → Prop) {β : Type} {c : Char}
    {text : List Char} {f : Unit → Parser β} {post : β → Cursor → Prop}
    (h : Ensures (Cursor.Behind line fit start [] text.length) (f ()) post) :
    Ensures (Begins line start (c :: text)) (skip 1 >>= f) post :=
  fun d hd => h (d.advance 1) (hd.skip_one fit)

/-- A run of literal text that a quote ends stops right behind the quote. -/
theorem exists_of_scan_quote {text : List Char}
    (h : (LiteralRun.scan text).terminator = .quote) :
    ∃ v, text = v ++ '\'' :: text.drop (LiteralRun.scan text).length := by
  fun_induction LiteralRun.scan text with
  | case1 | case3 | case5 => cases h
  | case2 rest => exact ⟨[], rfl⟩
  | case4 c text run ih =>
    obtain ⟨v, hv⟩ := ih h
    exact ⟨'\\' :: c :: v, congrArg ('\\' :: c :: ·) hv⟩
  | case6 c text run _ _ _ _ ih =>
    obtain ⟨v, hv⟩ := ih h
    exact ⟨c :: v, congrArg (c :: ·) hv⟩

theorem ends_segments (nested : Nested line fit k expr) (s n : Nat) {c c' : Cursor}
    {r : List String × List Expr} (hroom : c.rest.length ≤ k)
    (run : (segments expr s n).run c = .ok (r, c')) : ∃ v, c.rest = v ++ '\'' :: c'.rest := by
  induction n generalizing c r with
  | zero => cases run
  | succ n ih =>
    obtain ⟨text, c₁, hrest, run⟩ := run_bind_eq_ok_iff.mp run
    cases hrest
    obtain ⟨_, c₁, run₁, run⟩ := run_bind_eq_ok_iff.mp run
    obtain ⟨t₁, pass₁, -⟩ := moves_skip _ c _ c₁ le_rfl run₁
    have hroom₁ := congrArg List.length pass₁.rest
    rw [List.length_append] at hroom₁
    split at run
    next => cases run
    next => cases run
    next hquote =>
      cases run₁
      cases run
      exact exists_of_scan_quote hquote
    next =>
      obtain ⟨hole, c₂, run₂, run⟩ := run_bind_eq_ok_iff.mp run
      obtain ⟨_, c₃, run₃, run⟩ := run_bind_eq_ok_iff.mp run
      obtain ⟨r, c₄, run₄, run⟩ := run_bind_eq_ok_iff.mp run
      cases run
      obtain ⟨t₂, pass₂, -, -⟩ := nested.again 0 _ 0 (by omega) le_rfl _ _ _ rfl run₂
      obtain ⟨t₃, pass₃, -⟩ := @moves_expect _ "\x7d" (by decide) c₂ _ c₃ le_rfl run₃
      have hroom₂ := congrArg List.length pass₂.rest
      have hroom₃ := congrArg List.length pass₃.rest
      rw [List.length_append] at hroom₂ hroom₃
      obtain ⟨v, hv⟩ := ih (by omega) run₄
      refine ⟨t₁ ++ (t₂ ++ (t₃ ++ v)), ?_⟩
      rw [pass₁.rest, pass₂.rest, pass₃.rest, hv]
      simp only [List.append_assoc]

theorem frames_string (nested : Nested line fit k expr) (n : Nat) {text : List Char}
    (htext : text.length ≤ k) :
    Ensures (Begins line start ('\'' :: text)) (string n expr)
      (Cursor.Frames line fit start k) := by
  refine Begins.offset_bind fun c hc e c' run => ?_
  obtain ⟨_, c₁, hskip, run⟩ := run_bind_eq_ok_iff.mp run
  obtain ⟨⟨segments, holes⟩, c₂, hsegments, run⟩ := run_bind_eq_ok_iff.mp run
  cases run
  cases hskip
  have hc₂ := (lays_segments nested start n).behind htext _ (hc.skip_one fit) _ _ hsegments
  refine ⟨hc₂.stands, rfl, hc₂.placed, fun _ => ?_, hc₂.room⟩
  have hrest : (c.advance 1).rest = text := congrArg (List.drop 1) hc.rest
  obtain ⟨v, hv⟩ := ends_segments nested start n (by rwa [hrest]) hsegments
  obtain ⟨before, hline, hoffset⟩ := hc.stands
  refine ⟨before, v, ?_, hoffset.symm.trans hc.offset⟩
  rw [hline, hc.rest, ← hrest, hv]

theorem frames_integer {text : List Char} :
    Ensures (Begins line start text) integer (Cursor.Frames line fit start text.length) := by
  have frame {f : Node → Expr} (n : Nat) (hnode : ∀ nd, (f nd).node = nd)
      (hregions : ∀ nd, (f nd).regions = []) (hplain : ∀ nd, (f nd).isString = false)
      (hn : n ≤ text.length) :
      Ensures (Cursor.Behind line fit start [] n) (do return f (← node start))
        (Cursor.Frames line fit start text.length) :=
    (frames_node hnode hregions hplain).imp (fun c hc => hc.weaken hn) fun _ _ => id
  refine Begins.offset_bind (Begins.rest_bind ?_)
  extract_lets negative digits
  have hdigits : ∀ u n, n ≤ text.length → Ensures (Cursor.Behind line fit start [] n) (digits u)
      (Cursor.Frames line fit start text.length) := by
    intro u n hn
    refine ensures_rest_bind fun rest => Ensures.imp ?_ (fun _ h => h.1) fun _ _ => id
    refine (moves_skip _).behind.bind fun _ => ?_
    dsimp only
    split
    · split
      · exact frame _ (fun _ => rfl) (fun _ => rfl) (fun _ => rfl) hn
      · exact ensures_throw_bind
    · split
      · exact frame _ (fun _ => rfl) (fun _ => rfl) (fun _ => rfl) hn
      · exact ensures_throw_bind
  refine Ensures.imp ?_ (fun c hc => hc.behind fit) fun _ _ => id
  split
  · exact (moves_skip 1).behind.bind fun u => hdigits u _ (Nat.sub_le _ _)
  · exact hdigits () _ le_rfl

/-! ## Lists -/

theorem lays_items (nested : Nested line fit k expr) (close : String)
    (hclose : 1 ≤ close.toList.length) (n : Nat) :
    Lays line fit k (items expr close n) (·.map .expr) := by
  induction n with
  | zero => exact fun _ _ => .throw
  | succ n ih =>
    intro start rs
    refine (nested.lays _ _).bind fun e => (moves_eat close hclose).behind.bind fun closed => ?_
    cases closed with
    | true => exact .pure fun c hc => hc.weaken (Nat.sub_le _ _)
    | false =>
      refine (moves_expect "," (by decide)).behind.bind fun _ => ?_
      refine (ih.behind (by omega)).bind fun es => ?_
      refine .pure fun c hc => ?_
      rwa [List.append_assoc] at hc

theorem lays_list (nested : Nested line fit k expr) (close : String)
    (hclose : 1 ≤ close.toList.length) (n : Nat) :
    Lays line fit k (list n expr close) (·.map .expr) := by
  intro start rs
  refine (moves_eat close hclose).behind.bind fun closed => ?_
  cases closed with
  | true =>
    refine .pure fun c hc => ?_
    show Cursor.Behind line fit start (rs ++ []) k c
    rw [List.append_nil]
    exact hc.weaken (Nat.sub_le _ _)
  | false => exact (lays_items nested close hclose n).behind (Nat.sub_le _ _)

/-! ## Lambdas and parentheses -/

theorem still_declare_region (v : NameAt) : Still (declare v) fun x => x.region = v.region :=
  still_freshIndex.bind fun _ _ => .pure rfl

theorem still_declareAll_region (vs : List NameAt) :
    Still (vs.mapM declare) fun xs => xs.map LocalVar.region = vs.map NameAt.region := by
  induction vs with
  | nil =>
    rw [List.mapM_nil]
    exact .pure rfl
  | cons v vs ih =>
    rw [List.mapM_cons]
    refine (still_declare_region v).bind fun x hx => ih.bind fun xs hxs => .pure ?_
    rw [List.map_cons, List.map_cons, hx, hxs]

theorem frames_lambda (nested : Nested line fit k expr) (params : List NameAt) {n : Nat}
    (hn : n ≤ k) :
    Ensures (Cursor.Behind line fit start (params.map NameAt.region) n) (lambda expr start params)
      (Cursor.Frames line fit start k) := by
  refine still_bind (still_declareAll_region params) fun xs hxs => ?_
  refine (nested.lays.behind hn).bind fun body => ?_
  refine frames_node (fun _ => rfl) (fun _ => ?_) fun _ => rfl
  show xs.map LocalVar.region ++ _ = _
  rw [hxs]

theorem behind_moreParameters (hline : '\n' ∉ line) (n m : Nat) :
    Ensures (Cursor.Behind line fit start rs n) (moreParameters m) fun params c =>
      ∀ vs, params = some vs → c.Behind line fit start (rs ++ vs.map NameAt.region) n := by
  induction m generalizing rs with
  | zero => exact .pure fun _ _ _ h => nomatch h
  | succ m ih =>
    refine (behind_name? hline).bind fun v => ?_
    refine .of_fact fun _ => ?_
    cases v with
    | none => exact .pure fun _ _ _ h => nomatch h
    | some v =>
      refine (moves_eat ")" (by decide)).behind.bind fun closed => ?_
      cases closed with
      | true =>
        refine .pure fun c hc vs h => ?_
        obtain rfl := Option.some.inj h
        exact hc.weaken (by omega)
      | false =>
        refine (moves_eat "," (by decide)).behind.bind fun more => ?_
        cases more with
        | true =>
          refine (ih.imp (fun c hc => hc.weaken (by omega)) fun _ _ => id).bind fun params => ?_
          refine .pure fun c hc vs h => ?_
          obtain ⟨vs, rfl, rfl⟩ := Option.map_eq_some_iff.mp h
          have h := hc vs rfl
          rwa [List.append_assoc] at h
        | false => exact .pure fun _ _ _ h => nomatch h

theorem behind_parameters? (fit : List Char → Expr → Prop) (hline : '\n' ∉ line) (m : Nat)
    {c : Char} {text : List Char} :
    Ensures (Begins line start (c :: text)) (parameters? m) fun params d => match params with
      | some vs => d.Behind line fit start (vs.map NameAt.region) text.length
      | none => Begins line start (c :: text) d := by
  refine Ensures.get_bind fun before hbefore => Begins.skip_one_bind fit ?_
  refine (moves_eat ")" (by decide)).behind.bind fun empty => ?_
  extract_lets close
  have hclose : ∀ params, Ensures
      (fun d => ∀ vs, params = some vs → d.Behind line fit start (vs.map NameAt.region) text.length)
      (close params) fun params d => match params with
        | some vs => d.Behind line fit start (vs.map NameAt.region) text.length
        | none => Begins line start (c :: text) d := by
    intro params
    cases params with
    | none =>
      have anything {pre : Cursor → Prop} : Ensures pre (eat "=>") fun _ _ => True :=
        fun _ _ _ _ _ => trivial
      refine anything.bind fun arrow => ?_
      exact (Ensures.set fun _ _ => hbefore).bind fun _ => .pure fun _ hd => hd
    | some vs =>
      refine Ensures.imp ((moves_eat "=>" (by decide)).behind.bind fun arrow => ?_)
        (fun d hd => hd vs rfl)
        fun _ _ => id
      cases arrow with
      | true => exact .pure fun d hd => hd.weaken (Nat.sub_le _ _)
      | false => exact (Ensures.set fun _ _ => hbefore).bind fun _ => .pure fun _ hd => hd
  split
  · refine Ensures.bind (.pure fun d hd => ?_) hclose
    rintro vs ⟨⟩
    exact hd.weaken (Nat.sub_le _ _)
  · exact ((behind_moreParameters hline _ m).imp (fun d hd => hd.weaken (Nat.sub_le _ _))
      fun _ _ => id).bind hclose

/-- What was read since `start` is one node, which still has to be seen to fit, or it is laid. -/
def Done (line : List Char) (fit : List Char → Expr → Prop) (start n : Nat) (e : Expr)
    (c : Cursor) : Prop :=
  c.Frames line fit start n e ∨ c.Behind line fit start [.expr e] n

theorem done_node {n : Nat} {f : Node → Expr} (hnode : ∀ nd, (f nd).node = nd)
    (hregions : ∀ nd, (f nd).regions = rs) (hplain : ∀ nd, (f nd).isString = false) :
    Ensures (Cursor.Behind line fit start rs n) (do return f (← node start))
      (Done line fit start n) :=
  (frames_node hnode hregions hplain).imp (fun _ => id) fun _ _ => .inl

theorem done_parenthesized (hline : '\n' ∉ line) (nested : Nested line fit k expr) (n : Nat)
    {c : Char} {text : List Char} (htext : text.length ≤ k) :
    Ensures (Begins line start (c :: text)) (parenthesized n expr)
      (Done line fit start k) := by
  refine Begins.offset_bind ((behind_parameters? fit hline n).bind fun params => ?_)
  cases params with
  | some params => exact (frames_lambda nested params htext).imp (fun _ => id) fun _ _ => .inl
  | none =>
    refine Begins.skip_one_bind fit ((nested.lays.behind htext).bind fun inner => ?_)
    refine (moves_expect ")" (by decide)).behind.bind fun _ => .pure fun d hd => .inr ?_
    exact hd.weaken (Nat.sub_le _ _)

/-! ## Loops and arrays -/

theorem lays_loopVariable (hline : '\n' ∉ line) (n : Nat) :
    Lays line fit n loopVariable fun v => [v.region] := by
  intro start rs
  refine moves_skipBlanks.behind.bind fun _ => still_bind still_column fun _ _ => ?_
  refine (behind_name? hline).bind fun v => .of_fact fun _ => ?_
  cases v with
  | none => exact .throw
  | some v => exact .pure fun c hc => hc.weaken (by omega)

theorem lays_loopVariables (hline : '\n' ∉ line) (n : Nat) :
    Lays line fit n loopVariables fun r => r.1.region :: r.2.toList.map NameAt.region := by
  intro start rs
  refine (moves_eat "(" (by decide)).behind.bind fun open? => ?_
  cases open? with
  | true =>
    refine ((lays_loopVariable hline n).behind (Nat.sub_le _ _)).bind fun item => ?_
    refine (moves_expect "," (by decide)).behind.bind fun _ => ?_
    refine ((lays_loopVariable hline n).behind (Nat.sub_le _ _)).bind fun index => ?_
    refine (moves_expect ")" (by decide)).behind.bind fun _ => .pure fun c hc => ?_
    rw [List.append_assoc] at hc
    exact hc.weaken (Nat.sub_le _ _)
  | false =>
    refine ((lays_loopVariable hline n).behind (Nat.sub_le _ _)).bind fun item => ?_
    exact .pure fun c hc => hc

theorem still_declareOption_region (v : Option NameAt) : Still (v.mapM declare) fun x =>
    x.toList.map LocalVar.region = v.toList.map NameAt.region := by
  cases v with
  | none => exact .pure rfl
  | some v =>
    rw [Option.mapM_some, map_eq_pure_bind]
    exact (still_declare_region v).bind fun x hx => .pure (congrArg ([·]) hx)

theorem moves_atKeyword {n : Nat} (word : String) : Moves n (atKeyword word) fun _ => 0 := by
  intro c found c' _ run
  cases run
  exact ⟨[], .of_still rfl rfl, Nat.zero_le _⟩

theorem frames_loop (hline : '\n' ∉ line) (nested : Nested line fit k expr) {n : Nat} (hn : n ≤ k) :
    Ensures (Cursor.Behind line fit start [] n) (loop expr start)
      (Cursor.Frames line fit start k) := by
  refine ((lays_loopVariables hline k).behind hn).bind ?_
  rintro ⟨item, index⟩
  refine moves_skipBlanks.behind.bind fun _ => (moves_atKeyword "in").behind.bind fun found => ?_
  cases found with
  | false => exact still_bind still_column fun _ _ => ensures_throw_bind
  | true =>
    refine (moves_skip _).behind.bind fun _ => (nested.lays.behind (Nat.sub_le _ _)).bind ?_
    intro collection
    refine (moves_expect ":" (by decide)).behind.bind fun _ => ?_
    refine still_bind (still_declare_region item) fun x hx => ?_
    refine still_bind (still_declareOption_region index) fun y hy => ?_
    refine (nested.lays.behind (Nat.sub_le _ _)).bind fun body => ?_
    refine (moves_expect "]" (by decide)).behind.bind fun _ => ?_
    refine (frames_node (fun _ => rfl) (fun _ => ?_) fun _ => rfl).imp (fun _ => id) fun e c hc =>
      hc.weaken (Nat.sub_le _ _)
    show x.region :: (y.toList.map LocalVar.region ++ _) = _
    rw [hx, hy]
    simp

theorem frames_arrayOrLoop (hline : '\n' ∉ line) (nested : Nested line fit k expr) (n : Nat)
    {c : Char} {text : List Char} (htext : text.length ≤ k) :
    Ensures (Begins line start (c :: text)) (arrayOrLoop n expr)
      (Cursor.Frames line fit start k) := by
  refine Begins.offset_bind (Begins.skip_one_bind fit ?_)
  refine moves_skipBlanks.behind.bind fun _ => (moves_atKeyword "for").behind.bind fun found => ?_
  cases found with
  | true => exact (moves_skip _).behind.bind fun _ => frames_loop hline nested htext
  | false =>
    refine ((lays_list nested "]" (by decide) n).behind htext).bind fun items => ?_
    exact frames_node (fun _ => rfl) (fun _ => rfl) fun _ => rfl

/-! ## Objects -/

theorem moves_key (nested : Nested line fit k expr) {n : Nat} (m : Nat) (hn : n ≤ k + 1) :
    Moves n (key m expr) fun _ => 0 :=
  Retraces.moves (fun _ htext => retraces_key (m := 0) (nested.again 0) (htext.trans hn)
    (Nat.zero_le _) le_rfl) fun _ _ _ _ => Nat.zero_le _

/-- What follows is laid from here on. -/
theorem behind_offset_bind {β : Type} {n : Nat} {f : Nat → Parser β} {post : β → Cursor → Prop}
    (h : ∀ c : Cursor, c.At line → Placed line fit start c.offset rs →
      Ensures (Cursor.Behind line fit c.offset [] n) (f c.offset) post) :
    Ensures (Cursor.Behind line fit start rs n) (offset >>= f) post :=
  fun c hc => h c hc.stands hc.placed c ⟨hc.stands, .nil le_rfl, hc.room⟩

/-- A region ends here that began at `c`. -/
theorem behind_span_bind {β : Type} {n : Nat} {f : Span → Parser β} {post : β → Cursor → Prop}
    (hline : '\n' ∉ line) {c : Cursor} (hc : c.At line) (placed : Placed line fit start c.offset rs)
    (region : Span → Region) {parts : List Region} (hspan : ∀ s, (region s).span = s)
    (hfits : ∀ s w, (region s).Fits fit w) (hparts : ∀ s, (region s).parts = parts)
    (h : ∀ s, Ensures (Cursor.Behind line fit start (rs ++ [region s]) n) (f s) post) :
    Ensures (Cursor.Behind line fit c.offset parts n) (spanFrom c.offset >>= f) post := by
  intro d hd
  refine h (.inLine c.offset d.offset) d ⟨hd.stands, placed.append ?_, hd.room⟩
  obtain ⟨w, covers⟩ := hc.exists_covers hline hd.stands hd.placed.start_le_stop
  rw [← hspan (.inLine c.offset d.offset)] at covers
  have hd' := hd.placed
  rw [← hparts (.inLine c.offset d.offset)] at hd'
  have hlaid := Placed.single covers (hfits _ w)
  rw [hspan] at hlaid
  exact hlaid hd'

theorem lays_properties (hline : '\n' ∉ line) (nested : Nested line fit k expr) (n : Nat) :
    Lays line fit k (properties expr n) (·.map .property) := by
  induction n with
  | zero => exact fun _ _ => still_bind still_column fun _ _ => .throw
  | succ n ih =>
    intro start rs
    refine moves_skipBlanks.behind.bind fun _ => behind_offset_bind fun c hc placed => ?_
    refine (moves_key nested _ (Nat.le_succ _)).behind.bind fun key => ?_
    refine (moves_expect ":" (by decide)).behind.bind fun _ => ?_
    refine (nested.lays.behind (Nat.sub_le _ _)).bind fun value => ?_
    refine behind_span_bind hline hc placed (fun span => .property { span, key, value })
      (fun _ => rfl) (fun _ _ => trivial) (fun _ => rfl) fun span => ?_
    refine (moves_eat "\x7d" (by decide)).behind.bind fun closed => ?_
    cases closed with
    | true => exact .pure fun c hc => hc.weaken (Nat.sub_le _ _)
    | false =>
      refine (moves_expect "," (by decide)).behind.bind fun _ => ?_
      refine (ih.behind (by omega)).bind fun ps => ?_
      refine .pure fun c hc => ?_
      rwa [List.append_assoc] at hc

theorem frames_object (hline : '\n' ∉ line) (nested : Nested line fit k expr) (n : Nat)
    {c : Char} {text : List Char} (htext : text.length ≤ k) :
    Ensures (Begins line start (c :: text)) (object n expr) (Cursor.Frames line fit start k) := by
  refine Begins.offset_bind (Begins.skip_one_bind fit ?_)
  refine (moves_eat "\x7d" (by decide)).behind.bind fun closed => ?_
  cases closed with
  | true =>
    refine (frames_node (f := (.object · [])) (fun _ => rfl) (fun _ => rfl) fun _ => rfl).imp
      (fun c hc => hc.weaken ?_) fun _ _ => id
    exact (Nat.sub_le _ _).trans htext
  | false =>
    refine ((lays_properties hline nested n).behind htext).bind fun ps => ?_
    exact frames_node (fun _ => rfl) (fun _ => rfl) fun _ => rfl

/-! ## Names and operands -/

theorem done_named (nested : Nested line fit k expr) (n : Nat) (v : NameAt)
    (hv : ∀ nd, isKeyword v.name = false → fit v.name.toList (.var nd v.name)) :
    Ensures (Cursor.Behind line fit start [v.region] k) (named n expr start v)
      (Done line fit start k) := by
  unfold named
  have forget {c : Cursor} {n : Nat} (hc : c.Behind line fit start ([] ++ [v.region]) n) :
      c.Behind line fit start [] n := hc.left
  split
  next =>
    exact (done_node (f := (.bool · true)) (fun _ => rfl) (fun _ => rfl) fun _ => rfl).imp
      (fun _ => forget) fun _ _ => id
  next =>
    exact (done_node (f := (.bool · false)) (fun _ => rfl) (fun _ => rfl) fun _ => rfl).imp
      (fun _ => forget) fun _ _ => id
  next =>
    exact (done_node (f := .null) (fun _ => rfl) (fun _ => rfl) fun _ => rfl).imp
      (fun _ => forget) fun _ _ => id
  next htrue hfalse hnull =>
    have hkeyword : isKeyword v.name = false := by
      simpa [isKeyword] using ⟨htrue, hfalse, hnull⟩
    refine (moves_eat "=>" (by decide)).behind.bind fun arrow => ?_
    cases arrow with
    | true => exact (frames_lambda nested [v] (Nat.sub_le _ _)).imp (fun _ => id) fun _ _ => .inl
    | false =>
      refine (moves_eat "(" (by decide)).behind.bind fun called => ?_
      cases called with
      | true =>
        refine (((lays_list nested ")" (by decide) n).behind (Nat.sub_le _ _)).imp (fun _ => forget)
          fun _ _ => id).bind fun args => ?_
        exact done_node (fun _ => rfl) (fun _ => rfl) fun _ => rfl
      | false =>
        rintro c hc e c' run
        cases run
        obtain ⟨covers, fits, -, -⟩ := hc.placed.laid v.region List.mem_cons_self
        refine .inr ⟨hc.stands, ⟨hc.placed.ordered, ?_⟩, hc.room⟩
        rw [List.forall_mem_singleton]
        obtain rfl : _ = v.name.toList := fits
        exact (Placed.single (r := .expr (.var ⟨v.span, _⟩ v.name)) covers (hv _ hkeyword)
          (.nil covers.start_le_stop)).laid _ List.mem_cons_self

theorem Begins.skipBlanks_bind {β : Type} {text : List Char} {f : Unit → Parser β}
    {post : β → Cursor → Prop} (htext : text.head?.any isBlank = false)
    (h : Ensures (Begins line start text) (f ()) post) :
    Ensures (Begins line start text) (skipBlanks >>= f) post := by
  intro c hc
  have hstill : c.advance (c.rest.takeWhile isBlank).length = c := by
    rw [hc.rest, takeWhile_eq_nil htext]
    rfl
  have hrun : (skipBlanks >>= f).run c = (f ()).run (c.advance (c.rest.takeWhile isBlank).length) :=
    rfl
  intro b c' run
  rw [hrun, hstill] at run
  exact h c hc b c' run

theorem done_primary (hline : '\n' ∉ line) (nested : Nested line fit k expr) (n : Nat)
    (hfit : ∀ x nd, isName x → isKeyword x = false → fit x.toList (.var nd x)) {text : List Char}
    (hblank : text.head?.any isBlank = false) (htext : text.length ≤ k + 1) :
    Ensures (Begins line start text) (primary n expr) (Done line fit start (k + 1)) := by
  have frames {p : Parser Expr} (h : Ensures (Begins line start text) p
      (Cursor.Frames line fit start k)) :
      Ensures (Begins line start text) p (Done line fit start (k + 1)) :=
    h.imp (fun _ => id) fun _ _ h => .inl (h.weaken (Nat.le_succ k))
  refine Begins.skipBlanks_bind hblank (Begins.offset_bind (Begins.rest_bind ?_))
  split
  next => exact .throw
  next => exact frames (frames_string nested n (Nat.le_of_succ_le_succ htext))
  next =>
    have htext := Nat.le_of_succ_le_succ htext
    refine (done_parenthesized hline nested n htext).imp (fun _ => id) fun e d hd => ?_
    exact hd.imp (·.weaken (Nat.le_succ k)) (·.weaken (Nat.le_succ k))
  next => exact frames (frames_arrayOrLoop hline nested n (Nat.le_of_succ_le_succ htext))
  next => exact frames (frames_object hline nested n (Nat.le_of_succ_le_succ htext))
  next c text _ _ _ _ =>
    split
    next => exact frames_integer.imp (fun _ => id) fun _ _ h => .inl (h.weaken htext)
    next =>
      refine ((behind_name? hline).imp (fun c hc => hc.behind fit) fun _ _ => id).bind fun v => ?_
      refine .of_fact fun hv => ?_
      cases v with
      | none => exact .throw
      | some v =>
        have hname := hv v rfl
        refine (done_named nested n v fun nd => hfit v.name nd hname).imp ?_ ?_
        · exact fun c hc => hc.weaken (Nat.sub_le_of_le_add htext)
        · exact fun e d hd => hd.imp (·.weaken (Nat.le_succ k)) (·.weaken (Nat.le_succ k))

end Parser

end Preflight
