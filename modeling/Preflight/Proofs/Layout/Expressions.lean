import Preflight.Proofs.Layout.Operands
import Preflight.Proofs.Parser.RetraceOperators

/-! # How expressions are laid

An operand, a sign with its operand, and what a suffix or an operator joins on are each a node with
a text of its own, which begins where the first of them began. -/

namespace Preflight
set_option autoImplicit false

/-- The text reads as the expression on its own, and a string stands between its quotes. -/
structure OwnText (w : List Char) (e : Expr) : Prop where
  alone : ∀ m, w.length ≤ m → Parser.Reads (Parser.expr m) (· = w) (·.erase = e.erase) (Near [])
  quoted : e.isString = true → ∃ v, w = '\'' :: (v ++ ['\''])

namespace Parser

variable {line : List Char} {k start : Nat} {rs : List Region} {expr : Parser Expr}

/-- The text reads alone, as an expression that ends in it. -/
def ReadsAlone (t : List Char) (e : Expr) : Prop :=
  t ≠ [] ∧ ∀ m, t.length ≤ m + 1 →
    Reads (conditional (m + 1) (Parser.expr m)) (· = t) (·.erase = e.erase) (Near [])

theorem ReadsAlone.ownText {t : List Char} {e : Expr} (h : ReadsAlone t e)
    (quoted : e.isString = true → ∃ v, t = '\'' :: (v ++ ['\''])) : OwnText t e where
  alone := by
    intro m hm
    cases m with
    | zero => exact absurd (List.length_eq_zero_iff.mp (Nat.le_zero.mp hm)) h.1
    | succ m => exact h.2 m hm
  quoted := quoted

theorem ownText_var {x : String} {nd : Node} (hx : isName x) (hkeyword : isKeyword x = false) :
    OwnText x.toList (.var nd x) := by
  refine ReadsAlone.ownText ⟨?_, fun m _ => ?_⟩ nofun
  · obtain ⟨c, cs, hcons, -, -⟩ := exists_cons_of_isName hx
    rw [hcons]
    exact List.cons_ne_nil c cs
  · have rereads : Rereads (conditional (m + 1) (Parser.expr m)) (.var nd x) :=
      rereads_var hx hkeyword
    have h := (rereads [] .nil).at_of_near
    rwa [List.append_nil] at h

/-! ## Blanks in front -/

theorem run_past_blanks {α : Type} (f : Unit → Parser α) (c : Cursor) :
    (skipBlanks >>= f).run c =
      (skipBlanks >>= f).run (c.advance (c.rest.takeWhile isBlank).length) := by
  have hrun (c : Cursor) : (skipBlanks >>= f).run c =
      (f ()).run (c.advance (c.rest.takeWhile isBlank).length) := rfl
  have hrest : (c.advance (c.rest.takeWhile isBlank).length).rest = c.rest.dropWhile isBlank :=
    drop_length_takeWhile isBlank c.rest
  rw [hrun, hrun (c.advance _), hrest, takeWhile_eq_nil (head?_dropWhile isBlank c.rest)]
  rfl

theorem Reads.near_of_blanks {f : Unit → Parser Expr} {t : List Char} {result : Expr → Prop}
    {after : List Char → Prop} (ht : t.head?.any isBlank = false)
    (h : Reads (skipBlanks >>= f) (· = t) result after) :
    Reads (skipBlanks >>= f) (Near t) result after := by
  intro c hc
  have hrest : (c.advance (c.rest.takeWhile isBlank).length).rest = t := by
    rw [← dropWhile_eq_self ht, ← hc]
    exact drop_length_takeWhile isBlank c.rest
  obtain ⟨e, c', run, he, hc'⟩ := h _ hrest
  exact ⟨e, c', (run_past_blanks f c).trans run, he, hc'⟩

/-- A rule that passes blanks first lays its expression behind them. -/
theorem behind_of_begins {n m : Nat} {f : Unit → Parser Expr} {fit : List Char → Expr → Prop}
    (h : ∀ start text, text.head?.any isBlank = false → text.length ≤ n →
      Ensures (Begins line start text) (skipBlanks >>= f) fun e =>
        Cursor.Behind line fit start [.expr e] m) :
    Ensures (Cursor.Behind line fit start rs n) (skipBlanks >>= f) fun e =>
      Cursor.Behind line fit start (rs ++ [.expr e]) m := by
  intro c hc e c' run
  have pass := Cursor.Passes.advance c (c.rest.takeWhile isBlank).length
  have hblank := head?_dropWhile isBlank c.rest
  have hrest : (c.advance (c.rest.takeWhile isBlank).length).rest = c.rest.dropWhile isBlank :=
    drop_length_takeWhile isBlank c.rest
  have hroom := (List.dropWhile_sublist isBlank (l := c.rest)).length_le.trans hc.room
  rw [run_past_blanks] at run
  have hc' := h _ _ hblank hroom _ ⟨hc.stands.passes pass, hrest, rfl⟩ e c' run
  refine ⟨hc'.stands, (hc.placed.extend ?_).append hc'.placed, hc'.room⟩
  rw [pass.offset]
  exact Nat.le_add_right _ _

/-- A node that is done is laid if the text of it reads alone. -/
theorem behind_of_done (hline : '\n' ∉ line) {n : Nat} {p : Parser Expr} {text : List Char}
    (h : Ensures (Begins line start text) p (Done line OwnText start n))
    (own : ∀ c e c', c.rest = text → p.run c = .ok (e, c') →
      ∃ t, c.Passes t c' ∧ ReadsAlone t e) :
    Ensures (Begins line start text) p fun e => Cursor.Behind line OwnText start [.expr e] n := by
  intro c hc e c' run
  obtain rfl := hc.offset
  rcases h c hc e c' run with hframes | hbehind
  · obtain ⟨t, pass, alone⟩ := own c e c' hc.rest run
    refine hframes.behind hline hc.stands pass (alone.ownText fun hstring => ?_)
    exact (hframes.quoted hstring).of_passes hc.stands pass
  · exact hbehind

/-! ## Operands -/

theorem readsAlone_of_primary {t : List Char} {e : Expr} (ht : t ≠ [])
    (hblank : t.head?.any isBlank = false) (hsign : UnaryOp.at? t = none)
    (h : ∀ m, t.length ≤ m + 1 →
      Reads (primary (m + 1) (Parser.expr m)) (· = t) (·.erase = e.erase) (· = [])) :
    ReadsAlone t e := by
  refine ⟨ht, fun m hm => (reads_conditional_of_primary ?_ .nil ?_).at_of_near⟩
  · rwa [dropWhile_eq_self hblank]
  · exact (h m hm).near_of_at.near_of_blanks hblank

theorem behind_primary (hline : '\n' ∉ line) (nested : Nested line OwnText k expr) {n : Nat}
    {text : List Char} (hblank : text.head?.any isBlank = false) (hsign : UnaryOp.at? text = none)
    (htext : text.length ≤ k + 1) (hn : text.length ≤ n) :
    Ensures (Begins line start text) (primary n expr) fun e =>
      Cursor.Behind line OwnText start [.expr e] (k + 1) := by
  refine behind_of_done hline
    (done_primary hline nested n (fun x nd => ownText_var) hblank htext) ?_
  rintro c e c' rfl run
  have retraces (m : Nat) := retraces_primary (m := m + 1) (nested.again m) htext le_rfl hn le_rfl
  obtain ⟨t, pass, ht, -⟩ := retraces 0 c e c' rfl run
  have hfront : t <+: c.rest := ⟨c'.rest, pass.rest.symm⟩
  rw [lead_eq_leadWord hblank] at ht
  refine ⟨t, pass, readsAlone_of_primary ?_ (head?_any_of_isPrefix hfront hblank)
    (UnaryOp.at?_of_isPrefix hfront ht hsign) fun m hm => (retraces m).reads run pass hm⟩
  exact List.ne_nil_of_length_pos ((leadWord_pos _).trans ht)

/-! ## Loops -/

section

variable {bound reach room : Nat} {q : Parser Expr} {more? : Expr → Parser (Option Expr)}
  {more?' : Nat → Expr → Parser (Option Expr)} {text t : List Char} {e : Expr}

/-- Having passed `t`, the rule goes on in a loop from the tree, on whatever is left of the text. -/
def Resumes (bound : Nat) (q : Parser Expr) (more?' : Nat → Expr → Parser (Option Expr))
    (text t : List Char) (e : Expr) : Prop :=
  ∀ u, u <+: text → (t ++ u).length ≤ bound → ∀ d, d.rest = t ++ u →
    ∃ start j e' d', u.length ≤ j ∧ d'.rest = u ∧ e'.erase = e.erase ∧
      ∀ r, (grow (more?' start) j e').run d' = .ok r → q.run d = .ok r

theorem Resumes.reads (h : Resumes bound q more?' text t e)
    (hend : ∀ start e, Reads (more?' start e) (· = []) (· = none) (· = []))
    (ht : t.length ≤ bound) : Reads q (· = t) (·.erase = e.erase) (· = []) := by
  intro d hd
  obtain ⟨start, j, e', d', -, hrest, he, hrun⟩ := h [] List.nil_prefix (by simpa using ht) d
    (by simpa using hd)
  have hgrow : Reads (grow (more?' start) j e') (· = []) (·.erase = e.erase) (· = []) :=
    reads_grow_end he (hend start)
  obtain ⟨e'', d'', run, he', hd'⟩ := hgrow d' hrest
  exact ⟨e'', d'', hrun _ run, he', hd'⟩

theorem Resumes.turn {c c' : Cursor} {e₁ : Expr} (h : Resumes bound q more?' c.rest t e)
    (turns : ∀ start, RetracesTurns reach room more? (more?' start)) (hroom : bound ≤ room)
    (hreach : c.rest.length ≤ reach) (run : (more? e).run c = .ok (some e₁, c')) :
    ∃ t₁, c.Passes t₁ c' ∧ Resumes bound q more?' c'.rest (t ++ t₁) e₁ := by
  have again (start bound : Nat) (hroom : bound ≤ room) (e' : Expr) (he : e'.erase = e.erase) :=
    turns start c.rest bound e e' hreach hroom he c _ c' rfl run
  obtain ⟨t₁, pass, ht₁, -⟩ := again 0 0 (Nat.zero_le _) e rfl
  refine ⟨t₁, pass, fun u hu hbound d hd => ?_⟩
  rw [List.append_assoc] at hbound hd
  have hcut : t₁ ++ u <+: c.rest := by
    rw [pass.rest]
    exact (List.prefix_append_right_inj t₁).mpr hu
  obtain ⟨start, j, e', d', hj, hrest, he, hrun⟩ := h (t₁ ++ u) hcut hbound d hd
  obtain ⟨t₂, pass', -, reads⟩ := again start (t₁ ++ u).length (by
    rw [List.length_append] at hbound
    omega) e' he
  obtain rfl := pass.unique pass'
  obtain ⟨x, d'', run', hx, hd''⟩ := reads u hu le_rfl d' hrest
  obtain ⟨e₁', rfl, he₁⟩ := Option.map_eq_some_iff.mp hx
  have hpos := ht₁ rfl
  rw [List.length_append] at hj
  obtain ⟨j, rfl⟩ := Nat.exists_eq_add_of_le' (hpos.trans (Nat.le_of_add_right_le hj))
  refine ⟨start, j, e₁', d'', by omega, hd'', he₁, fun r hr => hrun r ?_⟩
  exact run_bind_eq_ok_iff.mpr ⟨some e₁', d'', run', hr⟩

end

/-- What a loop joins on is laid turn by turn, if what stands there after each turn reads alone. -/
theorem behind_grow (hline : '\n' ∉ line) {n : Nat} {more? : Expr → Parser (Option Expr)}
    {q : Nat → Parser Expr} {more?' : Nat → Nat → Expr → Parser (Option Expr)}
    (turns : ∀ m start', RetracesTurns n (m + 1) more? (more?' m start'))
    (hend : ∀ m start' e, Reads (more?' m start' e) (· = []) (· = none) (· = []))
    (joins : ∀ e, Ensures (Cursor.Behind line OwnText start [.expr e] n) (more? e) fun r c =>
      r.elim (c.Behind line OwnText start [.expr e] n) (c.Frames line OwnText start n))
    {text : List Char} (alone : ∀ t e, t <+: text → lead text ≤ t.length →
      (∀ m, t.length ≤ m + 1 → Reads (q m) (· = t) (·.erase = e.erase) (· = [])) → ReadsAlone t e)
    {c₀ : Cursor} (hc₀ : Begins line start text c₀) {j : Nat} {e : Expr} {c : Cursor}
    {t : List Char} (pass : c₀.Passes t c) (ht : lead text ≤ t.length)
    (resumes : ∀ m, Resumes (m + 1) (q m) (more?' m) c.rest t e)
    (hc : c.Behind line OwnText start [.expr e] n) {e' : Expr} {c' : Cursor}
    (run : (grow more? j e).run c = .ok (e', c')) :
    c'.Behind line OwnText start [.expr e'] n := by
  induction j generalizing e c t with
  | zero =>
    cases run
    exact hc
  | succ j ih =>
    obtain ⟨x, c₁, run₁, run⟩ := run_bind_eq_ok_iff.mp run
    have joined := joins e c hc x c₁ run₁
    cases x with
    | none =>
      cases run
      exact joined
    | some e₁ =>
      have turned (m : Nat) := (resumes m).turn (turns m) le_rfl hc.room run₁
      obtain ⟨t₁, pass₁, -⟩ := turned 0
      have resumes' (m : Nat) : Resumes (m + 1) (q m) (more?' m) c₁.rest (t ++ t₁) e₁ := by
        obtain ⟨t₂, pass₂, resumes'⟩ := turned m
        rwa [pass₁.unique pass₂]
      have pass' := pass.trans pass₁
      have hlead : lead text ≤ (t ++ t₁).length := by
        rw [List.length_append]
        exact Nat.le_add_right_of_le ht
      have hfront : t ++ t₁ <+: text := ⟨c₁.rest, by rw [← hc₀.rest, pass'.rest]⟩
      have halone := alone (t ++ t₁) e₁ hfront hlead fun m hm => (resumes' m).reads (hend m) hm
      refine ih pass' hlead resumes' ?_ run
      obtain rfl := hc₀.offset
      refine joined.behind hline hc₀.stands pass' (halone.ownText fun hstring => ?_)
      exact (joined.quoted hstring).of_passes hc₀.stands pass'

/-! ## Suffixes -/

theorem behind_skip_one {fit : List Char → Expr → Prop} {n : Nat} {d : Char} {text : List Char} :
    Ensures (fun c => Cursor.Behind line fit start rs (n + 1) c ∧ c.rest = d :: text) (skip 1)
      fun _ => Cursor.Behind line fit start rs n := by
  rintro c ⟨hc, hrest⟩ _ c' run
  have pass := Cursor.Passes.advance c 1
  cases run
  refine ⟨hc.stands.passes pass, hc.placed.extend (pass.offset ▸ Nat.le_add_right _ _), ?_⟩
  have hroom := hc.room
  rw [hrest, List.length_cons] at hroom
  have hrest' : (c.advance 1).rest = text := congrArg (List.drop 1) hrest
  rw [hrest']
  exact Nat.le_of_succ_le_succ hroom

theorem joins_node {fit : List Char → Expr → Prop} {n m : Nat} {f : Node → Expr} {e : Expr}
    (hnode : ∀ nd, (f nd).node = nd) (hregions : ∀ nd, (f nd).regions = rs)
    (hplain : ∀ nd, (f nd).isString = false) (hm : m ≤ n) :
    Ensures (Cursor.Behind line fit start rs m) (do return some (f (← node start))) fun r c =>
      r.elim (c.Behind line fit start [.expr e] n) (c.Frames line fit start n) := by
  rintro c hc r c' run
  cases run
  exact (frames_node hnode hregions hplain c hc _ _ rfl).weaken hm

theorem joins_suffix? (hline : '\n' ∉ line) {fit : List Char → Expr → Prop}
    (nested : Nested line fit k expr) (n : Nat) (e : Expr) :
    Ensures (Cursor.Behind line fit start [.expr e] (k + 1)) (suffix? n expr start e) fun r c =>
      r.elim (c.Behind line fit start [.expr e] (k + 1)) (c.Frames line fit start (k + 1)) := by
  refine moves_skipBlanks.behind.bind fun _ => ensures_rest_bind fun text => ?_
  split
  next =>
    refine behind_skip_one.bind fun _ => (behind_name? hline).bind fun v => .of_fact fun _ => ?_
    cases v with
    | none => exact still_bind still_column fun _ _ => .throw
    | some v =>
      have forget (c : Cursor) (hc : c.Behind line fit start ([.expr e] ++ [v.region]) (k - 1)) :
          c.Behind line fit start [.expr e] (k - 1) := hc.left
      refine Ensures.imp ?_ forget fun _ _ => id
      refine (moves_eat "(" (by decide)).behind.bind fun called => ?_
      cases called with
      | true =>
        refine ((lays_list nested ")" (by decide) n).behind (by omega)).bind fun args => ?_
        exact joins_node (fun _ => rfl) (fun _ => rfl) (fun _ => rfl) (Nat.le_succ k)
      | false => exact joins_node (fun _ => rfl) (fun _ => rfl) (fun _ => rfl) (by omega)
  next =>
    refine behind_skip_one.bind fun _ => (nested.lays _ _).bind fun key => ?_
    refine (moves_expect "]" (by decide)).behind.bind fun _ => ?_
    exact joins_node (fun _ => rfl) (fun _ => rfl) (fun _ => rfl) (by omega)
  next => exact .pure fun c hc => hc.1

/-- What is joined on to a first operand is a loop that goes on from it. -/
theorem resumes_joined {bound : Nat} {first : Parser Expr}
    {more?' : Nat → Expr → Parser (Option Expr)} {text t : List Char} {e : Expr}
    (hblank : t.head?.any isBlank = false) (hne : t ≠ [])
    (h : ∀ u, u <+: text → (t ++ u).length ≤ bound →
      Reads first (· = t ++ u) (·.erase = e.erase) (· = u)) :
    Resumes bound (joined first more?' bound) more?' text t e := by
  intro u hu hbound d hd
  obtain ⟨e', d', run, he, hd'⟩ := h u hu hbound d hd
  rw [List.length_append] at hbound
  refine ⟨d.offset, bound, e', d', by omega, hd', he, fun r hr => ?_⟩
  have hblank' : d.rest.head?.any isBlank = false := by
    obtain ⟨c, t, rfl⟩ := List.exists_cons_of_ne_nil hne
    rwa [hd]
  have hstill : d.advance (d.rest.takeWhile isBlank).length = d := by
    rw [takeWhile_eq_nil hblank']
    rfl
  have hrun (f : Unit → Parser Expr) :
      (skipBlanks >>= f).run d = (f ()).run (d.advance (d.rest.takeWhile isBlank).length) := rfl
  rw [joined, hrun, hstill]
  show (first >>= grow (more?' d.offset) bound).run d = .ok r
  exact run_bind_eq_ok_iff.mpr ⟨e', d', run, hr⟩

theorem behind_joined (hline : '\n' ∉ line) {n j : Nat} {first : Parser Expr}
    {more? : Nat → Expr → Parser (Option Expr)} {first' : Nat → Parser Expr}
    {more?' : Nat → Nat → Expr → Parser (Option Expr)} {text : List Char}
    (hblank : text.head?.any isBlank = false)
    (laid : Ensures (Begins line start text) first fun e =>
      Cursor.Behind line OwnText start [.expr e] n)
    (again : ∀ m, Retraces text (m + 1) first (first' m) Expr.erase fun _ t => lead text ≤ t.length)
    (turns : ∀ m start', RetracesTurns n (m + 1) (more? start) (more?' m start'))
    (hend : ∀ m start' e, Reads (more?' m start' e) (· = []) (· = none) (· = []))
    (joins : ∀ e, Ensures (Cursor.Behind line OwnText start [.expr e] n) (more? start e) fun r c =>
      r.elim (c.Behind line OwnText start [.expr e] n) (c.Frames line OwnText start n))
    (alone : ∀ t e, t <+: text → lead text ≤ t.length →
      (∀ m, t.length ≤ m + 1 → Reads (joined (first' m) (more?' m) (m + 1)) (· = t)
        (·.erase = e.erase) (· = [])) → ReadsAlone t e) :
    Ensures (Begins line start text) (joined first more? j) fun e =>
      Cursor.Behind line OwnText start [.expr e] n := by
  refine Begins.skipBlanks_bind hblank (Begins.offset_bind ?_)
  intro c hc e' c' run
  obtain ⟨e, c₁, run₁, run⟩ := run_bind_eq_ok_iff.mp run
  have hc₁ := laid c hc e c₁ run₁
  obtain ⟨t, pass, ht, -⟩ := again 0 c e c₁ hc.rest run₁
  have hfront : t <+: text := ⟨c₁.rest, by rw [← hc.rest, pass.rest]⟩
  refine behind_grow hline turns hend joins alone hc pass ht (fun m => ?_) hc₁ run
  refine resumes_joined (head?_any_of_isPrefix hfront hblank) ?_ fun u hu hbound => ?_
  · exact List.ne_nil_of_length_pos ((lead_pos text).trans ht)
  · obtain ⟨t', pass', -, reads⟩ := again m c e c₁ hc.rest run₁
    obtain rfl := pass.unique pass'
    exact reads u hu hbound

theorem behind_postfixed (hline : '\n' ∉ line) (nested : Nested line OwnText k expr) {n : Nat}
    {text : List Char} (hblank : text.head?.any isBlank = false) (hsign : UnaryOp.at? text = none)
    (htext : text.length ≤ k + 1) (hn : text.length ≤ n) :
    Ensures (Begins line start text) (postfixed n expr) fun e =>
      Cursor.Behind line OwnText start [.expr e] (k + 1) := by
  rw [postfixed_eq_joined]
  refine behind_joined hline hblank (behind_primary hline nested hblank hsign htext hn)
    (fun m => retraces_primary (m := m + 1) (nested.again m) htext le_rfl hn le_rfl)
    (fun m start' => retraces_suffix? (nested.again m) start start' (Nat.le_succ m))
    (fun m start' => reads_suffix?_end (m + 1) start') (joins_suffix? hline nested n) ?_
  intro t e hfront ht h
  have hblank' := head?_any_of_isPrefix hfront hblank
  rw [lead_eq_leadWord hblank] at ht
  refine ⟨List.ne_nil_of_length_pos ((leadWord_pos text).trans ht), fun m hm => ?_⟩
  refine (reads_conditional_of_postfixed ?_ .nil ?_).at_of_near
  · rw [dropWhile_eq_self hblank']
    exact UnaryOp.at?_of_isPrefix hfront ht hsign
  · have h := h m hm
    rw [← postfixed_eq_joined] at h
    exact h.near_of_at.near_of_blanks hblank'

/-! ## Signs -/

theorem Nested.again_postfixed {fit : List Char → Expr → Prop} (nested : Nested line fit k expr)
    (m : Nat) : RetracesNested (k + 1) (m + 1) (postfixed (k + 1) expr)
      (postfixed (m + 1) (Parser.expr m)) :=
  fun _ _ htext hbound =>
    retraces_postfixed (nested.again m) htext hbound htext hbound (Nat.le_succ m)

theorem behind_prefixed (hline : '\n' ∉ line) (nested : Nested line OwnText k expr) {j : Nat}
    (hj : j ≤ k + 1) :
    Ensures (Cursor.Behind line OwnText start rs j) (prefixed (postfixed (k + 1) expr) j) fun e =>
      Cursor.Behind line OwnText start (rs ++ [.expr e]) (k + 1) := by
  induction j generalizing start rs with
  | zero =>
    intro c hc e c' run
    have hnil : c.rest = [] := List.length_eq_zero_iff.mp (Nat.le_zero.mp hc.room)
    exact hc.append (behind_postfixed hline nested rfl rfl (Nat.zero_le _) (Nat.zero_le _) c
      ⟨hc.stands, hnil, rfl⟩ e c' run)
  | succ j ih =>
    refine behind_of_begins fun start text hblank htext => behind_of_done hline ?_ ?_
    · refine Begins.skipBlanks_bind hblank (Begins.offset_bind (Begins.rest_bind ?_))
      cases hop : UnaryOp.at? text with
      | none =>
        exact (behind_postfixed hline nested hblank hop (htext.trans hj) (htext.trans hj)).imp
          (fun _ => id) fun _ _ => .inr
      | some op =>
        obtain ⟨d, text, rfl⟩ := List.exists_cons_of_ne_nil (UnaryOp.leadWord_of_at? hop).2
        refine Begins.skip_one_bind OwnText (((ih (Nat.le_of_succ_le hj)).imp
          (fun c hc => hc.weaken (Nat.le_of_succ_le_succ htext)) fun _ _ => id).bind fun e => ?_)
        exact done_node (fun _ => rfl) (fun _ => rfl) fun _ => rfl
    · rintro c e c' rfl run
      have retraces (m : Nat) := retraces_prefixed (nested.again_postfixed m) (htext.trans hj)
        le_rfl htext (m := m + 1) le_rfl
      obtain ⟨t, pass, ht, -⟩ := retraces 0 c e c' rfl run
      have hfront : t <+: c.rest := ⟨c'.rest, pass.rest.symm⟩
      refine ⟨t, pass, List.ne_nil_of_length_pos ((lead_pos _).trans ht), fun m hm => ?_⟩
      refine (reads_conditional_of_prefixed .nil ?_).at_of_near
      exact ((retraces m).reads run pass hm).near_of_at.near_of_blanks
        (head?_any_of_isPrefix hfront hblank)

/-! ## Levels -/

theorem moves_operator? {n : Nat} (level : List BinaryOp) : Moves n (operator? level) fun _ => 0 :=
  Retraces.moves (fun _ _ => retraces_operator? level) fun _ _ _ _ => Nat.zero_le _

theorem joins_link? {fit : List Char → Expr → Prop} {n : Nat} {operand : Parser Expr}
    (lays : Lays line fit n operand fun e => [.expr e]) (level : List BinaryOp) (e : Expr) :
    Ensures (Cursor.Behind line fit start [.expr e] n) (link? operand level start e) fun r c =>
      r.elim (c.Behind line fit start [.expr e] n) (c.Frames line fit start n) := by
  refine (moves_operator? level).behind.bind fun op => ?_
  cases op with
  | none => exact .pure fun c hc => hc
  | some op =>
    refine (lays _ _).bind fun rhs => ?_
    exact joins_node (fun _ => rfl) (fun _ => rfl) (fun _ => rfl) le_rfl

theorem Nested.again_prefixed {fit : List Char → Expr → Prop} (nested : Nested line fit k expr)
    (m : Nat) : RetracesNested (k + 1) (m + 1) (prefixed (postfixed (k + 1) expr) (k + 1))
      (prefixed (postfixed (m + 1) (Parser.expr m)) (m + 1)) :=
  fun _ _ htext hbound => retraces_prefixed (nested.again_postfixed m) htext hbound htext hbound

theorem lays_binary (hline : '\n' ∉ line) (nested : Nested line OwnText k expr)
    {looser levels : List (List BinaryOp)} (hlevels : looser ++ levels = BinaryOp.levels) :
    Lays line OwnText (k + 1) (binary (k + 1) (prefixed (postfixed (k + 1) expr) (k + 1)) levels)
      fun e => [.expr e] := by
  induction levels generalizing looser with
  | nil => exact fun _ _ => behind_prefixed hline nested le_rfl
  | cons level levels ih =>
    have tighter := @ih (looser ++ [level]) (by rw [← hlevels, List.append_assoc]; rfl)
    have hsubset : level :: levels ⊆ BinaryOp.levels :=
      hlevels ▸ List.subset_append_right looser (level :: levels)
    have again (m : Nat) := retraces_binary (nested.again_prefixed m) le_rfl le_rfl
      (List.subset_of_cons_subset hsubset)
    rw [binary_cons_eq_joined]
    refine fun start rs => behind_of_begins fun start text hblank htext => ?_
    refine behind_joined hline hblank ?_ (fun m => again m text (m + 1) htext le_rfl)
      (fun m start' => retraces_link? (again m) level start start')
      (fun m start' => reads_link?_end _ (hsubset List.mem_cons_self) start')
      (joins_link? tighter level) ?_
    · exact (tighter start []).imp (fun c hc => (hc.behind OwnText).weaken htext) fun _ _ => id
    · intro t e hfront ht h
      refine ⟨List.ne_nil_of_length_pos ((lead_pos text).trans ht), fun m hm => ?_⟩
      have own := h m hm
      rw [← binary_cons_eq_joined] at own
      refine (reads_conditional ?_ EndsExpr.nil.not_question).at_of_near
      rw [← hlevels]
      refine reads_levels ?_ fun l hl =>
        EndsExpr.nil.standing?_eq_none (hlevels ▸ List.mem_append_left _ hl)
      exact own.near_of_at.near_of_blanks (head?_any_of_isPrefix hfront hblank)

/-! ## Expressions -/

theorem lays_conditional (hline : '\n' ∉ line) (nested : Nested line OwnText k expr) :
    Lays line OwnText (k + 1) (conditional (k + 1) expr) fun e => [.expr e] := by
  refine fun start rs => behind_of_begins fun start text hblank htext => behind_of_done hline ?_ ?_
  · refine Begins.skipBlanks_bind hblank (Begins.offset_bind ?_)
    have levels := lays_binary hline nested (List.nil_append BinaryOp.levels)
    refine Ensures.imp ?_ (fun c hc => (hc.behind OwnText).weaken htext) fun _ _ => id
    refine (levels start []).bind fun condition => moves_skipBlanks.behind.bind fun _ => ?_
    refine ensures_rest_bind fun chars => ?_
    split
    next hmark =>
      obtain ⟨tail, rfl⟩ := List.head?_eq_some_iff.mp (beq_iff_eq.mp hmark)
      refine behind_skip_one.bind fun _ => (nested.lays _ _).bind fun ifTrue => ?_
      refine (moves_expect ":" (by decide)).behind.bind fun _ => ?_
      refine (nested.lays.behind (Nat.sub_le _ _)).bind fun ifFalse => ?_
      exact (done_node (f := (.ternary · condition ifTrue ifFalse)) (fun _ => rfl) (fun _ => rfl)
        fun _ => rfl).imp (fun c hc => hc.weaken (Nat.le_succ k)) fun _ _ => id
    next => exact .pure fun c hc => .inr hc.1
  · rintro c e c' rfl run
    have retraces (m : Nat) := retraces_conditional (nested.again m) htext le_rfl le_rfl le_rfl
    obtain ⟨t, pass, ht, -⟩ := retraces 0 c e c' rfl run
    refine ⟨t, pass, List.ne_nil_of_length_pos ((lead_pos _).trans ht), fun m hm => ?_⟩
    exact ((retraces m).reads run pass hm).after_imp fun u hu => hu ▸ Near.refl []

/-- Wherever an expression is read in a line, it is laid there. -/
theorem nested_expr (hline : '\n' ∉ line) (n : Nat) : Nested line OwnText n (Parser.expr n) := by
  induction n with
  | zero => exact ⟨fun _ _ => .throw, retraces_expr 0⟩
  | succ n ih => exact ⟨lays_conditional hline ih, retraces_expr (n + 1)⟩

end Parser

end Preflight
