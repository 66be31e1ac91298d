import Preflight.Proofs.Parser.RetraceOperands

/-! # Suffixes and operators are read again

Suffixes and the operators of a level join on from the left, one turn after the other, for as long
as one more stands there. -/

namespace Preflight
set_option autoImplicit false

namespace Parser

/-- A tree grows for as long as there is more to join to it, in so many turns at most. -/
def grow (more? : Expr → Parser (Option Expr)) : Nat → Expr → Parser Expr
  | 0, e => return e
  | n + 1, e => do
    match ← more? e with
    | none => return e
    | some e' => grow more? n e'

/-- A first operand, and what is joined on to it. -/
def joined (first : Parser Expr) (more? : Nat → Expr → Parser (Option Expr)) (n : Nat) :
    Parser Expr := do
  skipBlanks
  let start ← offset
  let e ← first
  grow (more? start) n e

/-- One suffix of `base`, which began at `start`. -/
def suffix? (m : Nat) (expr : Parser Expr) (start : Nat) (base : Expr) : Parser (Option Expr) := do
  skipBlanks
  match ← rest with
  | '.' :: _ =>
    skip 1
    let some name ← name? | throw (.expectedPropertyName (← column))
    if ← eat "(" then
      let args ← list m expr ")"
      return some (.call (← node start) (some base) name.name args)
    else
      return some (.member (← node start) base name.name)
  | '[' :: _ =>
    skip 1
    let key ← expr
    expect "]"
    return some (.subscript (← node start) base key)
  | _ => return none

/-- One operator of a level with its operand, joined to `lhs`, which began at `start`. -/
def link? (operand : Parser Expr) (level : List BinaryOp) (start : Nat) (lhs : Expr) :
    Parser (Option Expr) := do
  match ← operator? level with
  | none => return none
  | some op =>
    let rhs ← operand
    return some (.binary (← node start) op lhs rhs)

theorem chain_eq_grow (operand : Parser Expr) (level : List BinaryOp) (start n : Nat) (lhs : Expr) :
    chain operand level start n lhs = grow (link? operand level start) n lhs := by
  induction n generalizing lhs with
  | zero => rfl
  | succ n ih =>
    rw [chain, grow, link?, bind_assoc]
    refine bind_congr fun op => ?_
    cases op with
    | none => rfl
    | some op => simp [ih]

theorem suffixes_eq_grow (m : Nat) (expr : Parser Expr) (start n : Nat) (base : Expr) :
    suffixes m expr start n base = grow (suffix? m expr start) n base := by
  induction n generalizing base with
  | zero => rfl
  | succ n ih =>
    rw [suffixes, grow, suffix?, bind_assoc]
    refine bind_congr fun _ => ?_
    rw [bind_assoc]
    refine bind_congr fun text => ?_
    split
    next =>
      simp only [bind_assoc]
      refine bind_congr fun _ => bind_congr fun v => ?_
      cases v with
      | none => rfl
      | some v =>
        rw [bind_assoc]
        refine bind_congr fun called => ?_
        cases called with
        | true => simp [ih]
        | false => simp [ih]
    next => simp [ih]
    next => simp

theorem postfixed_eq_joined (n : Nat) (expr : Parser Expr) :
    postfixed n expr = joined (primary n expr) (suffix? n expr) n := by
  simp only [postfixed, joined, suffixes_eq_grow]

theorem binary_cons_eq_joined (n : Nat) (operand : Parser Expr) (level : List BinaryOp)
    (tighter : List (List BinaryOp)) : binary n operand (level :: tighter) =
      joined (binary n operand tighter) (link? (binary n operand tighter) level) n := by
  simp only [binary, joined, chain_eq_grow]

variable {text : List Char} {bound reach room : Nat} {expr expr' : Parser Expr}

/-! ## Loops -/

section

variable {more? more?' : Expr → Parser (Option Expr)}

theorem reads_grow_end {n : Nat} {e : Expr} {result : Expr → Prop} (he : result e)
    (hend : ∀ e, Reads (more? e) (· = []) (· = none) (· = [])) :
    Reads (grow more? n e) (· = []) result (· = []) := by
  cases n with
  | zero => exact .pure he
  | succ n => exact (hend e).bind_eq (.pure he)

/-- What joins on is told from the tree up to places, and something is passed for it. -/
def RetracesTurns (reach room : Nat) (more? more?' : Expr → Parser (Option Expr)) : Prop :=
  ∀ text bound e e', text.length ≤ reach → bound ≤ room → e'.erase = e.erase →
    Retraces text bound (more? e) (more?' e') (Option.map Expr.erase)
      fun a t => a.isSome → 1 ≤ t.length

theorem retraces_grow (turns : RetracesTurns reach room more? more?')
    (hend : ∀ e, Reads (more?' e) (· = []) (· = none) (· = [])) {n m : Nat} {e e' : Expr}
    (he : e'.erase = e.erase) (hreach : text.length ≤ reach) (hroom : bound ≤ room)
    (hn : text.length ≤ n) (hm : bound ≤ m) :
    Retraces text bound (grow more? n e) (grow more?' m e') Expr.erase
      fun a t => t = [] → a.erase = e.erase := by
  induction n generalizing text bound m e e' with
  | zero =>
    obtain rfl : text = [] := List.length_eq_zero_iff.mp (Nat.le_zero.mp hn)
    intro c a c' hc run
    cases run
    refine ⟨[], .of_still rfl rfl, fun _ => rfl, fun u hu _ => ?_⟩
    obtain rfl : u = [] := List.prefix_nil.mp (hc ▸ hu)
    exact reads_grow_end he hend
  | succ n ih =>
    have turn (m bound : Nat) (hroom : bound ≤ room) (hm : bound ≤ m + 1) :
        Retraces text bound (grow more? (n + 1) e) (grow more?' (m + 1) e') Expr.erase
          fun a t => t = [] → a.erase = e.erase := by
      refine (turns text bound e e' hreach hroom he).bind ?_
      intro a a' t rest hsplit ht ha
      have hlength := congrArg List.length hsplit
      rw [List.length_append] at hlength
      cases a with
      | none =>
        obtain rfl : a' = none := Option.map_eq_none_iff.mp ha
        exact .pure he fun _ => rfl
      | some x =>
        obtain ⟨x', rfl, hx⟩ := Option.map_eq_some_iff.mp ha
        have hpos := ht rfl
        refine (ih hx (by omega) (by omega) (by omega) (by omega)).imp ?_
        intro y u _ hnil
        rw [(List.append_eq_nil_iff.mp hnil).1] at hpos
        cases hpos
    cases m with
    | zero =>
      obtain rfl : bound = 0 := Nat.le_zero.mp hm
      refine (turn 0 0 hroom (Nat.zero_le 1)).zero fun a ha => .pure ?_
      rw [he, ha rfl]
    | succ m => exact turn m bound hroom hm

end

theorem retraces_joined {first first' : Parser Expr}
    {more? more?' : Nat → Expr → Parser (Option Expr)}
    (operand : ∀ text', text'.length ≤ text.length →
      Retraces text' bound first first' Expr.erase fun _ t => lead text' ≤ t.length)
    (turns : ∀ start start', RetracesTurns reach room (more? start) (more?' start'))
    (hend : ∀ start e, Reads (more?' start e) (· = []) (· = none) (· = [])) {n m : Nat}
    (hreach : text.length ≤ reach) (hroom : bound ≤ room) (hn : text.length ≤ n) (hm : bound ≤ m) :
    Retraces text bound (joined first more? n) (joined first' more?' m) Expr.erase
      fun _ t => lead text ≤ t.length := by
  have hblanks := (List.dropWhile_sublist isBlank (l := text)).length_le
  refine .start_bind fun start start' => (operand _ hblanks).bind ?_
  rintro e e' t rest hsplit ht he
  have hlength := congrArg List.length hsplit
  rw [List.length_append] at hlength
  refine (retraces_grow (turns start start') (hend start') he (by omega) (by omega) (by omega)
    (by omega)).imp ?_
  intro x u _
  rw [lead_eq_add, List.length_append, List.length_append]
  omega

/-! ## Suffixes -/

theorem retraces_someNode {f g : Node → Expr} (start start' : Nat)
    (h : ∀ n n', (g n').erase = (f n).erase) {passed : Option Expr → List Char → Prop}
    (hpassed : ∀ e, passed (some e) []) :
    Retraces text bound (do return some (f (← node start))) (do return some (g (← node start')))
      (Option.map Expr.erase) passed :=
  .still_bind (still_node start) (still_node start') fun n n' _ _ =>
    .pure (congrArg some (h n n')) (hpassed _)

/-- One of three things, as a text begins with a property access, a subscript or no suffix. -/
def bySuffix {α : Type} (member subscript nothing : α) : List Char → α
  | '.' :: _ => member
  | '[' :: _ => subscript
  | _ => nothing

theorem bySuffix_of_ne {α : Type} {member subscript nothing : α} {c : Char} (tail : List Char)
    (hdot : c ≠ '.') (hbracket : c ≠ '[') :
    bySuffix member subscript nothing (c :: tail) = nothing := by
  simp [bySuffix, hdot, hbracket]

/-- A text that is cut off shows the same suffix, if the first character of a suffix is left. -/
theorem bySuffix_of_isPrefix {α : Type} {member subscript nothing : α} {cut chars : List Char}
    (hfront : cut <+: chars) (hmark : ∀ c ∈ chars.head?, c = '.' ∨ c = '[' → cut ≠ []) :
    bySuffix member subscript nothing cut = bySuffix member subscript nothing chars := by
  cases chars with
  | nil => rw [List.prefix_nil.mp hfront]
  | cons c chars =>
    by_cases hsuffix : c = '.' ∨ c = '['
    · have hcut := hmark c rfl hsuffix
      obtain ⟨tail, rfl⟩ : ∃ tail, cut = c :: tail := by
        cases cut with
        | nil => exact absurd rfl hcut
        | cons d tail => exact ⟨tail, by rw [(List.cons_prefix_cons.mp hfront).1]⟩
      rcases hsuffix with rfl | rfl
      · rfl
      · rfl
    · rw [not_or] at hsuffix
      rw [bySuffix_of_ne chars hsuffix.1 hsuffix.2]
      cases cut with
      | nil => rfl
      | cons d tail =>
        obtain rfl := (List.cons_prefix_cons.mp hfront).1
        exact bySuffix_of_ne tail hsuffix.1 hsuffix.2

theorem retraces_suffix? (inner : RetracesNested reach room expr expr') {n m : Nat}
    (start start' : Nat) (hm : room ≤ m) :
    RetracesTurns (reach + 1) (room + 1) (suffix? n expr start) (suffix? m expr' start') := by
  intro text bound e e' hreach hroom he
  have hblanks := (List.dropWhile_sublist isBlank (l := text)).length_le
  have hpassed (a : Option Expr) (t : List Char) (h : a.isSome → t ≠ []) :
      a.isSome → 1 ≤ (text.takeWhile isBlank ++ t).length := by
    intro ha
    rw [List.length_append]
    exact Nat.le_add_left_of_le (List.length_pos_of_ne_nil (h ha))
  refine .blanks_bind (Retraces.imp (.rest_bind ?_ ?_) fun a t (h : (a.isSome → t ≠ []) ∧
    (a = none → ∀ c ∈ (text.dropWhile isBlank).head?, c ≠ '.' ∧ c ≠ '[')) => hpassed a t h.1)
  · generalize text.dropWhile isBlank = chars at hblanks ⊢
    split
    next chars =>
      rw [List.length_cons] at hblanks
      refine .skip_one_bind (.name_bind (fun v v' rest _ hv _ _ hless => ?_) fun _ => ?_)
      · refine .eat_bind (by decide) (fun rest' _ hless' => ?_) fun _ => ?_
        · refine (retraces_list inner ")" (by decide) (by omega) (by omega) (by omega)).bind ?_
          intro args args' t rest _ _ hargs
          refine retraces_someNode start start' (fun n n' => ?_) fun _ => ⟨fun _ => ?_, nofun⟩
          · rw [Expr.erase_method, Expr.erase_method, he, hv, hargs]
          · exact List.cons_ne_nil _ _
        · refine retraces_someNode start start' (fun n n' => ?_) fun _ => ⟨fun _ => ?_, nofun⟩
          · rw [hv]
            exact congrArg (Expr.member {} · v.name) he
          · exact List.cons_ne_nil _ _
      · exact .still_bind still_column still_column fun _ _ _ _ => .throw
    next chars =>
      rw [List.length_cons] at hblanks
      refine .skip_one_bind (inner.bind (by omega) (by omega) fun key key' t rest hkey _ _ => ?_)
      refine .expect_bind (by decide) fun rest' _ _ => ?_
      refine retraces_someNode start start' (fun n n' => ?_) fun _ => ⟨fun _ => ?_, nofun⟩
      · exact congrArg₂ (Expr.subscript {}) he hkey
      · exact List.cons_ne_nil _ _
    next hmember hsubscript =>
      refine .pure rfl ⟨nofun, fun _ c hc => ?_⟩
      obtain ⟨chars, rfl⟩ := List.head?_eq_some_iff.mp hc
      refine ⟨?_, ?_⟩
      · rintro rfl
        exact hmember chars rfl
      · rintro rfl
        exact hsubscript chars rfl
  · rintro cut a t ⟨hsome, hnone⟩ hcut hfront d r run
    rw [← run]
    refine congrArg (StateT.run · d) (bySuffix_of_isPrefix hfront ?_)
    -- a suffix that stands there is passed, so the text is not cut off before it
    rintro c hc hmark rfl
    obtain rfl : t = [] := List.prefix_nil.mp hcut
    cases a with
    | none =>
      obtain ⟨hdot, hbracket⟩ := hnone rfl c hc
      exact hmark.elim hdot hbracket
    | some x => exact hsome rfl rfl

theorem reads_suffix?_end (m start : Nat) (e : Expr) :
    Reads (suffix? m expr start e) (· = []) (· = none) (· = []) :=
  (reads_skipBlanks (t := [])).at_of_near.bind fun _ _ => reads_rest.bind_eq (.pure rfl)

theorem retraces_postfixed (inner : RetracesNested reach room expr expr') {n m : Nat}
    (hreach : text.length ≤ reach + 1) (hroom : bound ≤ room + 1) (hn : text.length ≤ n)
    (hm : bound ≤ m) (hroom' : room ≤ m) :
    Retraces text bound (postfixed n expr) (postfixed m expr') Expr.erase
      fun _ t => lead text ≤ t.length := by
  rw [postfixed_eq_joined, postfixed_eq_joined]
  refine retraces_joined (fun text' hshorter => ?_)
    (fun start start' => retraces_suffix? inner start start' hroom')
    (fun start => reads_suffix?_end m start) hreach hroom hn hm
  exact retraces_primary inner (hshorter.trans hreach) hroom (hshorter.trans hn) hm

/-! ## Signs -/

theorem retraces_prefixed {operand operand' : Parser Expr} {n m : Nat}
    (inner : ∀ text bound, text.length ≤ reach → bound ≤ room →
      Retraces text bound operand operand' Expr.erase fun _ t => lead text ≤ t.length)
    (hreach : text.length ≤ reach) (hroom : bound ≤ room) (hn : text.length ≤ n) (hm : bound ≤ m) :
    Retraces text bound (prefixed operand n) (prefixed operand' m) Expr.erase
      fun _ t => lead text ≤ t.length := by
  induction n generalizing text bound m with
  | zero =>
    obtain rfl : text = [] := List.length_eq_zero_iff.mp (Nat.le_zero.mp hn)
    intro c a c' hc run
    obtain ⟨t, pass, ht, -⟩ := inner [] 0 (Nat.zero_le _) (Nat.zero_le _) c a c' hc run
    rw [(List.append_eq_nil_iff.mp (pass.rest.symm.trans hc)).1] at ht
    exact absurd ((lead_pos []).trans ht) (by decide)
  | succ n ih =>
    refine .turn hm (fun m hm => ?_) fun _ h => absurd ((lead_pos text).trans h) (by decide)
    have hblanks := (List.dropWhile_sublist isBlank (l := text)).length_le
    have hhead := head?_dropWhile isBlank text
    refine .start_bind fun start start' => Retraces.imp (.rest_bind ?_ ?_) fun _ _ => lead_le_length
    · generalize text.dropWhile isBlank = chars at hblanks hhead ⊢
      cases hop : UnaryOp.at? chars with
      | none =>
        have h := inner chars bound (by omega) hroom
        rwa [lead_eq_leadWord hhead] at h
      | some op =>
        obtain ⟨hone, hne⟩ := UnaryOp.leadWord_of_at? hop
        obtain ⟨c, chars, rfl⟩ := List.exists_cons_of_ne_nil hne
        rw [List.length_cons] at hblanks
        refine .skip_one_bind ?_
        refine (ih (by omega) (by omega) (by omega) (by omega)).bind fun e e' t rest _ _ he => ?_
        refine retraces_node start start' (fun n n' => ?_) fun _ => ?_
        · exact congrArg (Expr.unary {} op) he
        · rw [hone]
          exact Nat.le_add_left 1 _
    · rintro cut e t ht hcut hfront d r run
      generalize text.dropWhile isBlank = chars at ht hfront run
      have hlength := ht.trans hcut.length_le
      cases hop : UnaryOp.at? chars with
      | none =>
        rw [hop] at run
        rwa [UnaryOp.at?_of_isPrefix hfront hlength hop]
      | some op =>
        rw [hop] at run
        have hne := List.ne_nil_of_length_pos ((leadWord_pos chars).trans hlength)
        rwa [UnaryOp.at?_eq_some_of_isPrefix hfront hne hop]

/-! ## Levels -/

/-- The operator that stands there is told from as much of the text as its token takes. -/
theorem standing?_of_isPrefix {cut : List Char} (h : cut <+: text) {level : List BinaryOp}
    {op : Option BinaryOp} (htext : BinaryOp.standing? text level = op)
    (hcut : ∀ o ∈ op, o.token.toList <+: cut) : BinaryOp.standing? cut level = op := by
  unfold BinaryOp.standing? at htext ⊢
  induction level with
  | nil => exact htext
  | cons o level ih =>
    cases ho : o.token.toList.isPrefixOf text with
    | true =>
      rw [List.find?_cons, ho] at htext
      have hfront := List.isPrefixOf_iff_prefix.mpr (hcut o htext.symm)
      rwa [List.find?_cons, hfront]
    | false =>
      rw [List.find?_cons, ho] at htext
      rw [List.find?_cons, isPrefixOf_of_isPrefix h ho]
      exact ih htext

theorem retraces_operator? (level : List BinaryOp) :
    Retraces text bound (operator? level) (operator? level) id fun op t => t =
      text.takeWhile isBlank ++ op.elim [] fun op => op.token.toList := by
  refine .blanks_bind (Retraces.imp (.rest_bind ?_ ?_)
    fun op t (h : BinaryOp.standing? (text.dropWhile isBlank) level = op ∧
      t = op.elim [] fun op => op.token.toList) => congrArg _ h.2)
  · split
    next missing => exact .pure rfl ⟨missing, rfl⟩
    next op found =>
      have hfront := List.find?_some (p := fun op : BinaryOp =>
        op.token.toList.isPrefixOf (text.dropWhile isBlank)) found
      obtain ⟨rest, hrest⟩ := List.isPrefixOf_iff_prefix.mp hfront
      refine .skip_bind (.pure rfl ⟨found, ?_⟩)
      rw [← hrest, ← String.length_toList, List.take_left, List.append_nil]
      rfl
  · rintro cut op t ⟨htext, rfl⟩ hcut hfront d r run
    have hsame : BinaryOp.standing? cut level = op := by
      refine standing?_of_isPrefix hfront htext ?_
      rintro o rfl
      exact hcut
    unfold BinaryOp.standing? at hsame htext
    rw [htext] at run
    rwa [hsame]

theorem retraces_link? {operand operand' : Parser Expr}
    (inner : RetracesNested reach room operand operand') (level : List BinaryOp)
    (start start' : Nat) :
    RetracesTurns reach room (link? operand level start) (link? operand' level start') := by
  intro text bound e e' hreach hroom he
  refine (retraces_operator? level).bind ?_
  rintro op op' t rest hsplit - hop
  obtain rfl : op' = op := hop
  have hlength := congrArg List.length hsplit
  rw [List.length_append] at hlength
  cases op' with
  | none => exact .pure rfl nofun
  | some op =>
    refine inner.bind (by omega) (by omega) fun rhs rhs' u rest' hrhs hlead _ => ?_
    refine retraces_someNode start start' (fun n n' => ?_) fun _ _ => ?_
    · exact congrArg₂ (Expr.binary {} op) he hrhs
    · have hpos := (lead_pos rest).trans hlead
      rw [List.append_nil, List.length_append]
      omega

theorem reads_link?_end (operand : Parser Expr) {level : List BinaryOp}
    (hlevel : level ∈ BinaryOp.levels) (start : Nat) (e : Expr) :
    Reads (link? operand level start e) (· = []) (· = none) (· = []) := by
  have hnone : BinaryOp.standing? [] level = none := EndsExpr.nil.standing?_eq_none hlevel
  have hop : Reads (operator? level) (· = []) (· = none) (· = []) := by
    refine (reads_skipBlanks (t := [])).at_of_near.bind fun _ _ => reads_rest.bind_eq ?_
    unfold BinaryOp.standing? at hnone
    rw [List.dropWhile_nil, hnone]
    exact .pure rfl
  exact Reads.bind_eq (q := fun op => _) hop (.pure rfl)

theorem retraces_binary {operand operand' : Parser Expr}
    (inner : RetracesNested reach room operand operand') {n m : Nat} (hn : reach ≤ n)
    (hm : room ≤ m) {levels : List (List BinaryOp)} (hlevels : levels ⊆ BinaryOp.levels) :
    RetracesNested reach room (binary n operand levels) (binary m operand' levels) := by
  induction levels with
  | nil => exact inner
  | cons level levels ih =>
    intro text bound hreach hroom
    have tighter := ih (List.subset_of_cons_subset hlevels)
    rw [binary_cons_eq_joined, binary_cons_eq_joined]
    exact retraces_joined (fun text' hshorter => tighter text' bound (hshorter.trans hreach) hroom)
      (fun start start' => retraces_link? tighter level start start')
      (fun start => reads_link?_end _ (hlevels List.mem_cons_self) start) hreach hroom
      (hreach.trans hn) (hroom.trans hm)

/-! ## Expressions -/

theorem retraces_conditional (inner : RetracesNested reach room expr expr') {n m : Nat}
    (hreach : text.length ≤ reach + 1) (hroom : bound ≤ room + 1) (hn : reach + 1 ≤ n)
    (hm : room + 1 ≤ m) :
    Retraces text bound (conditional n expr) (conditional m expr') Expr.erase
      fun _ t => lead text ≤ t.length := by
  have hblanks := (List.dropWhile_sublist isBlank (l := text)).length_le
  have operand : RetracesNested (reach + 1) (room + 1) (prefixed (postfixed n expr) n)
      (prefixed (postfixed m expr') m) := by
    intro text bound hreach hroom
    refine retraces_prefixed (fun text bound hreach hroom => ?_) hreach hroom (by omega) (by omega)
    exact retraces_postfixed inner hreach hroom (by omega) (by omega) (by omega)
  have levels := retraces_binary operand hn hm (List.Subset.refl BinaryOp.levels)
  refine .start_bind fun start start' => (levels _ _ (by omega) hroom).bind ?_
  rintro condition condition' t rest hsplit ht hcondition
  have hlength := congrArg List.length hsplit
  rw [List.length_append] at hlength
  have hpos := (lead_pos _).trans ht
  have hblanks' := (List.dropWhile_sublist isBlank (l := rest)).length_le
  refine .blanks_bind (Retraces.imp (.rest_bind ?_ ?_) fun e u
    (_ : (rest.dropWhile isBlank).head? = some '?' → u ≠ []) => ?_)
  · generalize rest.dropWhile isBlank = chars at hblanks'
    split
    next hmark =>
      obtain ⟨tail, rfl⟩ := List.head?_eq_some_iff.mp (beq_iff_eq.mp hmark)
      rw [List.length_cons] at hblanks'
      refine .skip_one_bind ?_
      refine inner.bind (by omega) (by omega) fun ifTrue ifTrue' v tail hthen _ _ => ?_
      refine .expect_bind (by decide) fun tail' _ _ => ?_
      refine inner.bind (by omega) (by omega) fun ifFalse ifFalse' w tail helse _ _ => ?_
      refine retraces_node start start' (fun n n' => ?_) fun _ _ => List.cons_ne_nil _ _
      show Expr.ternary {} condition'.erase ifTrue'.erase ifFalse'.erase = _
      rw [hcondition, hthen, helse]
      rfl
    next hmark => exact .pure hcondition fun h => absurd (beq_iff_eq.mpr h) hmark
  · rintro cut e u hu hcut hfront d r run
    have hne (hmark : (rest.dropWhile isBlank).head? = some '?') : cut ≠ [] := by
      rintro rfl
      exact hu hmark (List.prefix_nil.mp hcut)
    rwa [head?_beq_of_isPrefix hfront hne]
  · rw [lead_eq_add, List.length_append, List.length_append, List.length_append]
    omega

/-- What an expression is depends on its own text alone. -/
theorem retraces_expr (n m : Nat) : RetracesNested n m (Parser.expr n) (Parser.expr m) := by
  induction n generalizing m with
  | zero => exact fun _ _ _ _ => .throw
  | succ n ih =>
    intro text bound hn hm
    refine Retraces.turn (q := Parser.expr) hm (fun k hk => ?_) fun _ h => ?_
    · exact retraces_conditional (ih k) hn hk le_rfl le_rfl
    · exact absurd h (Nat.not_le_of_lt (lead_pos text))

end Parser

end Preflight
