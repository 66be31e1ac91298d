import Preflight.Proofs.Layout.Operands
import Preflight.Proofs.Layout.OwnText
import Preflight.Proofs.Parser.RetraceOperators

/-! # What leads in a string

A text that reads as a string holds no more than blanks and opening parentheses before its quote. -/

namespace Preflight
set_option autoImplicit false

def Leads (before : List Char) : Prop := ∀ c ∈ before, isBlank c = true ∨ c = '('

theorem Leads.append {s t : List Char} (hs : Leads s) (ht : Leads t) : Leads (s ++ t) :=
  fun c hc => (List.mem_append.mp hc).elim (hs c) (ht c)

theorem Leads.eq_of_mem {before : List Char} (h : Leads before) {c : Char} (hc : c ∈ before) :
    c = ' ' ∨ c = '\t' ∨ c = '(' := by
  rcases h c hc with hblank | rfl
  · simpa [isBlank, or_assoc] using Or.inl hblank
  · exact .inr (.inr rfl)

/-- All that stands before the cursor leads in. -/
def Cursor.Led (line : List Char) (c : Cursor) : Prop :=
  ∃ before, line = before ++ c.rest ∧ c.offset = utf8Length before ∧ Leads before

/-- A string has only what leads in before it. -/
def Expr.Led (line : List Char) (e : Expr) : Prop :=
  e.isString = true → ∃ before, before <+: line ∧ utf8Length before = e.span.start ∧ Leads before

variable {line : List Char}

theorem Expr.Led.of_plain {e : Expr} (h : e.isString = false) : e.Led line :=
  fun hstring => absurd (h.symm.trans hstring) Bool.false_ne_true

theorem Cursor.Led.passes {c c' : Cursor} {t : List Char} (h : c.Led line) (pass : c.Passes t c')
    (ht : Leads t) : c'.Led line := by
  obtain ⟨before, hline, hoffset, hbefore⟩ := h
  refine ⟨before ++ t, ?_, ?_, hbefore.append ht⟩
  · rw [hline, pass.rest, List.append_assoc]
  · rw [pass.offset, hoffset, utf8Length_append]

namespace Parser

variable {n m start : Nat} {expr first : Parser Expr}

/-! ## Trees that are no strings -/

theorem plain_node {f : Node → Expr} (h : ∀ nd, (f nd).isString = false) :
    Returns (do return f (← node start)) fun e => e.isString = false :=
  .after fun nd => .pure (h nd)

theorem plain_integer : Returns integer fun e => e.isString = false := by
  refine .after fun start => .after fun text => ?_
  extract_lets negative digits
  have hdigits : ∀ u, Returns (digits u) fun e => e.isString = false := by
    refine fun u => .after fun rest => .after fun _ => ?_
    dsimp only
    split
    · split
      · exact plain_node fun _ => rfl
      · exact Returns.throw_bind
    · split
      · exact plain_node fun _ => rfl
      · exact Returns.throw_bind
  split
  · exact .after hdigits
  · exact hdigits ()

theorem plain_lambda (params : List NameAt) :
    Returns (lambda expr start params) fun e => e.isString = false :=
  .after fun _ => .after fun _ => plain_node fun _ => rfl

theorem plain_loop : Returns (loop expr start) fun e => e.isString = false := by
  refine .after fun vars => .after fun _ => .after fun found => ?_
  extract_lets inside
  have hinside : ∀ u, Returns (inside u) fun e => e.isString = false := by
    refine fun u => .after fun _ => .after fun _ => .after fun _ => .after fun _ => ?_
    exact .after fun _ => .after fun _ => .after fun _ => plain_node fun _ => rfl
  split
  · exact hinside ()
  · exact .after fun _ => .after hinside

theorem plain_arrayOrLoop : Returns (arrayOrLoop n expr) fun e => e.isString = false := by
  refine .after fun start => .after fun _ => .after fun _ => .after fun isLoop => ?_
  cases isLoop with
  | true => exact .after fun _ => plain_loop
  | false => exact .after fun _ => plain_node fun _ => rfl

theorem plain_object : Returns (object n expr) fun e => e.isString = false := by
  refine .after fun start => .after fun _ => .after fun closed => ?_
  extract_lets finish
  have hfinish : ∀ ps, Returns (finish ps) fun e => e.isString = false :=
    fun ps => plain_node fun _ => rfl
  split
  · exact hfinish []
  · exact .after hfinish

theorem plain_named (name : NameAt) :
    Returns (named n expr start name) fun e => e.isString = false := by
  unfold named
  split
  iterate 3 exact plain_node fun _ => rfl
  refine .after fun arrow => ?_
  cases arrow with
  | true => exact plain_lambda _
  | false =>
    refine .after fun called => ?_
    cases called with
    | true => exact .after fun _ => plain_node fun _ => rfl
    | false => exact .after fun _ => .pure rfl

theorem plain_suffix? (base : Expr) :
    Returns (suffix? n expr start base) fun r => ∀ e ∈ r, e.isString = false := by
  have some_node {f : Node → Expr} (h : ∀ nd, (f nd).isString = false) :
      Returns (do return some (f (← node start))) fun r => ∀ e ∈ r, e.isString = false :=
    .after fun nd => .pure fun e he => by cases he; exact h nd
  refine .after fun _ => .after fun text => ?_
  split
  next =>
    refine .after fun _ => .after fun v => ?_
    cases v with
    | none => exact .after fun _ => .throw
    | some v =>
      refine .after fun called => ?_
      cases called with
      | true => exact .after fun _ => some_node fun _ => rfl
      | false => exact some_node fun _ => rfl
  next => exact .after fun _ => .after fun _ => .after fun _ => some_node fun _ => rfl
  next => exact .pure nofun

theorem plain_link? (operand : Parser Expr) (level : List BinaryOp) (lhs : Expr) :
    Returns (link? operand level start lhs) fun r => ∀ e ∈ r, e.isString = false := by
  refine .after fun op => ?_
  cases op with
  | none => exact .pure nofun
  | some op =>
    refine .after fun _ => .after fun nd => .pure fun e he => ?_
    cases he
    rfl

/-! ## Strings -/

theorem led_skipBlanks : Ensures (Cursor.Led line) skipBlanks fun _ => Cursor.Led line := by
  rintro c hc _ c' run
  cases run
  have pass := Cursor.Passes.advance c (c.rest.takeWhile isBlank).length
  rw [take_length_takeWhile] at pass
  exact hc.passes pass fun x hx => .inl (List.mem_takeWhile_imp hx)

theorem led_offset : Ensures (Cursor.Led line) offset fun _ => Cursor.Led line := by
  rintro c hc _ c' run
  cases run
  exact hc

theorem returns_node : Returns (node start) fun nd => nd.span.start = start := by
  have hspan : Returns (spanFrom start) fun s => s.start = start := .after fun _ => .pure rfl
  exact hspan.bind fun s hs => .after fun _ => .pure hs

theorem led_string : Ensures (Cursor.Led line) (string n expr) fun e _ => e.Led line := by
  rintro c ⟨before, hline, hoffset, hbefore⟩ e c' run -
  have hstart : Returns (do
      skip 1
      let parts ← segments expr c.offset n
      return Expr.string (← node c.offset) parts.1 parts.2) fun e => e.span.start = c.offset :=
    .after fun _ => .after fun _ => returns_node.bind fun nd hnd => .pure hnd
  refine ⟨before, ⟨c.rest, hline.symm⟩, ?_, hbefore⟩
  rw [← hoffset, hstart c trivial e c' run]

theorem led_parenthesized {text : List Char}
    (h : Ensures (Cursor.Led line) expr fun e _ => e.Led line) :
    Ensures (fun c => c.Led line ∧ c.rest = '(' :: text) (parenthesized n expr)
      fun e _ => e.Led line := by
  rintro c ⟨hc, hrest⟩ e c' run
  obtain ⟨start, c₀, run₀, run⟩ := run_bind_eq_ok_iff.mp run
  cases run₀
  obtain ⟨params, c₁, hparams, run⟩ := run_bind_eq_ok_iff.mp run
  cases params with
  | some params => exact .of_plain (plain_lambda params c₁ trivial e c' run)
  | none =>
    obtain rfl := run_parameters?_none hparams
    have pass := Cursor.Passes.advance c₁ 1
    rw [hrest] at pass
    have hc₁ : (c₁.advance 1).Led line := hc.passes pass fun x hx => .inr (List.mem_singleton.mp hx)
    have inside : Ensures (Cursor.Led line) (do
        let inner ← expr
        expect ")"
        return inner) fun e _ => e.Led line := by
      refine h.bind fun e => ?_
      have hold : Ensures (fun _ => e.Led line) (expect ")") fun _ _ => e.Led line :=
        fun _ he _ _ _ => he
      exact hold.bind fun _ => .pure fun _ he => he
    exact inside _ hc₁ e c' run

theorem led_primary (h : Ensures (Cursor.Led line) expr fun e _ => e.Led line) :
    Ensures (Cursor.Led line) (primary n expr) fun e _ => e.Led line := by
  have plain {pre : Cursor → Prop} {p : Parser Expr} (hp : Returns p fun e => e.isString = false) :
      Ensures pre p fun e _ => e.Led line :=
    fun c _ e c' run => .of_plain (hp c trivial e c' run)
  refine led_skipBlanks.bind fun _ => led_offset.bind fun start => ensures_rest_bind fun text => ?_
  split
  next => exact .throw
  next => exact led_string.imp (fun _ hc => hc.1) fun _ _ => id
  next => exact led_parenthesized h
  next => exact plain plain_arrayOrLoop
  next => exact plain plain_object
  next =>
    split
    · exact plain plain_integer
    · refine plain (.after fun name => ?_)
      cases name with
      | none => exact .throw
      | some name => exact plain_named name

theorem led_grow {more? : Expr → Parser (Option Expr)}
    (h : ∀ e, Returns (more? e) fun r => ∀ e' ∈ r, e'.isString = false) {e : Expr}
    (he : e.Led line) : Returns (grow more? n e) fun e' => e'.Led line := by
  induction n generalizing e with
  | zero => exact .pure he
  | succ n ih =>
    refine (h e).bind fun r hr => ?_
    cases r with
    | none => exact .pure he
    | some e' => exact ih (.of_plain (hr e' rfl))

theorem led_joined {more? : Nat → Expr → Parser (Option Expr)}
    (hfirst : Ensures (Cursor.Led line) first fun e _ => e.Led line)
    (hmore : ∀ start e, Returns (more? start e) fun r => ∀ e' ∈ r, e'.isString = false) :
    Ensures (Cursor.Led line) (joined first more? n) fun e _ => e.Led line := by
  refine led_skipBlanks.bind fun _ => led_offset.bind fun start => hfirst.bind fun e => ?_
  exact fun c he => led_grow (hmore start) he c trivial

theorem led_prefixed (h : Ensures (Cursor.Led line) first fun e _ => e.Led line) :
    Ensures (Cursor.Led line) (prefixed first n) fun e _ => e.Led line := by
  cases n with
  | zero => exact h
  | succ n =>
    refine led_skipBlanks.bind fun _ => led_offset.bind fun start => ?_
    refine ensures_rest_bind fun text => ?_
    split
    next => exact h.imp (fun _ hc => hc.1) fun _ _ => id
    next op _ =>
      have plain : Returns (do
          skip 1
          let inner ← prefixed first n
          return Expr.unary (← node start) op inner) fun e => e.isString = false :=
        .after fun _ => .after fun _ => plain_node fun _ => rfl
      exact fun c _ e c' run => .of_plain (plain c trivial e c' run)

theorem led_binary (h : Ensures (Cursor.Led line) first fun e _ => e.Led line)
    (levels : List (List BinaryOp)) :
    Ensures (Cursor.Led line) (binary n first levels) fun e _ => e.Led line := by
  induction levels with
  | nil => exact h
  | cons level tighter ih =>
    rw [binary_cons_eq_joined]
    exact led_joined ih fun start e => plain_link? _ level e

theorem led_conditional (h : Ensures (Cursor.Led line) expr fun e _ => e.Led line) :
    Ensures (Cursor.Led line) (conditional n expr) fun e _ => e.Led line := by
  have hpostfixed : Ensures (Cursor.Led line) (postfixed n expr) fun e _ => e.Led line := by
    rw [postfixed_eq_joined]
    exact led_joined (led_primary h) fun start e => plain_suffix? e
  refine led_skipBlanks.bind fun _ => led_offset.bind fun start => ?_
  refine (led_binary (led_prefixed hpostfixed) _).bind fun condition => ?_
  intro c hcondition
  have decided : Returns (do
      skipBlanks
      if (← rest).head? == some '?' then
        skip 1
        let ifTrue ← expr
        expect ":"
        let ifFalse ← expr
        return .ternary (← node start) condition ifTrue ifFalse
      else
        return condition) fun e => e.Led line := by
    refine .after fun _ => .after fun text => ?_
    split
    · refine .after fun _ => .after fun _ => .after fun _ => .after fun _ => ?_
      exact (plain_node fun _ => rfl).imp fun e => Expr.Led.of_plain
    · exact .pure hcondition
  exact decided c trivial

theorem led_expr (n : Nat) : Ensures (Cursor.Led line) (Parser.expr n) fun e _ => e.Led line := by
  induction n with
  | zero => exact .throw
  | succ n ih => exact led_conditional ih

end Parser

theorem Reading.led {text : String} {reading : Reading} (h : parse text = .ok reading) :
    reading.expr.Led text.toList := by
  obtain ⟨c, run⟩ := exists_run h
  exact Parser.led_expr _ { rest := text.toList } ⟨[], rfl, rfl, nofun⟩ _ c run

/-- A text that reads as a string has only what leads in before the quote. -/
theorem Reading.exists_quote {text : String} {reading : Reading} (h : parse text = .ok reading)
    (hstring : reading.expr.isString = true) : ∃ before rest,
      text.toList = before ++ '\'' :: rest ∧ utf8Length before = reading.expr.span.start ∧
      Leads before := by
  obtain ⟨before, ⟨rest, htext⟩, hlength, hbefore⟩ := led h hstring
  obtain ⟨covers, fits, -, -⟩ := laid h
  obtain ⟨v, rfl⟩ := fits.quoted hstring
  obtain ⟨before', after, htext', hlength'⟩ := covers.exists_split
  have h₁ := splitBytes?_eq_some_iff.mpr ⟨htext.symm, hlength⟩
  have h₂ := splitBytes?_eq_some_iff.mpr ⟨htext', hlength'⟩
  obtain ⟨rfl, -⟩ := Prod.mk.inj (Option.some.inj (h₁.symm.trans h₂))
  exact ⟨before, _, htext', hlength, hbefore⟩

end Preflight
