import Preflight.Expr.Chain
import Preflight.Proofs.Parser.GoingOnOperators

/-! # Chains are read by precedence

An accepted text is read in parentheses and as a branch of a conditional as it is read alone. From
such operands, and from names, the levels of the parser build the tree of a chain: a level collects
its own operators from the left, and between them stand chains of tighter ones. -/

namespace Preflight
set_option autoImplicit false

/-! ## Accepted texts -/

namespace Parser

variable {n : Nat} {expr : Parser Expr}

theorem run_conditional_past_blanks (c : Cursor) : (conditional n expr).run c =
    (conditional n expr).run (c.advance (c.rest.takeWhile isBlank).length) := by
  unfold conditional
  exact run_past_blanks _ c

/-- What an expression is read from may have any blanks in front of it. -/
theorem reads_conditional_near {t : List Char} {result : Expr → Prop} {after : List Char → Prop}
    (h : Reads (conditional n expr) (· = t.dropWhile isBlank) result after) :
    Reads (conditional n expr) (Near t) result after := by
  intro c hc
  rw [run_conditional_past_blanks]
  exact h _ ((drop_length_takeWhile isBlank c.rest).trans hc)

end Parser

namespace Reading

variable {text : String} {reading : Reading}

theorem not_endsExpr (h : parse text = .ok reading) : ¬EndsExpr text.toList := by
  obtain ⟨c, run, -⟩ := exists_run_blank h
  intro hends
  exact (Parser.extendsNested_expr [] _).fails _ hends _ _ rfl run

/-- An accepted text is read alone with any number of turns that is enough. -/
theorem reads_alone (h : parse text = .ok reading) {m : Nat} (hm : text.toList.length ≤ m) :
    Parser.Reads (Parser.expr m) (· = text.toList) (·.erase = reading.expr.erase) (Near []) := by
  obtain ⟨c, run, hblank⟩ := exists_run_blank h
  obtain ⟨t, pass, -, again⟩ :=
    Parser.retraces_expr _ m text.toList m le_rfl le_rfl _ _ _ rfl run
  have hrest : text.toList = t ++ c.rest := pass.rest
  have read := again c.rest (List.prefix_refl _) (hrest ▸ hm)
  rw [← hrest] at read
  refine read.after_imp ?_
  rintro _ rfl
  exact hblank

/-- A text that is accepted is read as far as it goes, wherever an expression may end behind it. -/
theorem reads_on (h : parse text = .ok reading) {u : List Char} (hu : EndsExpr u) {m : Nat}
    (hm : text.toList.length ≤ m) :
    Parser.Reads (Parser.expr m) (Near (text.toList ++ u)) (·.erase = reading.expr.erase)
      (Near u) := by
  cases m with
  | zero =>
    have hnil : text.toList = [] := List.length_eq_zero_iff.mp (Nat.le_zero.mp hm)
    exact absurd (hnil ▸ EndsExpr.nil) (not_endsExpr h)
  | succ k =>
    obtain ⟨e, c, run, he, hblank⟩ := reads_alone h hm { rest := text.toList } rfl
    have run' := (Parser.run_conditional_past_blanks _).symm.trans run
    have goesOn := (Parser.extendsNested_expr u (k + 1)).reads_on (text.toList.dropWhile isBlank)
      _ e c (Parser.drop_length_takeWhile isBlank text.toList) run'
    refine Parser.reads_conditional_near ?_
    rw [Parser.dropWhile_isBlank_append (not_endsExpr h)]
    refine goesOn.imp ?_ (fun e' he' => he'.trans he) fun rest hrest => ?_
    · rintro _ rfl
      exact .of_ends hu _
    · have hdrop := hrest.dropWhile
      rw [show c.rest.dropWhile isBlank = [] from hblank] at hdrop
      have hnear := hdrop.near
      rwa [Near, List.dropWhile_idempotent] at hnear

end Reading

/-! ## Operands -/

/-- After an operand that may be a name: neither more of the name, nor arguments, nor anything else
that would make more of the operand. -/
structure AfterOperand (rest : List Char) : Prop extends EndsOperand rest where
  name : rest.head?.any isNameChar = false
  call : "(".toList.isPrefixOf (rest.dropWhile isBlank) = false

namespace AfterOperand

theorem token (op : BinaryOp) (text : List Char) :
    AfterOperand (' ' :: (op.token.toList ++ ' ' :: text)) where
  toEndsOperand := .token op text
  name := rfl
  call := by cases op <;> rfl

theorem question (text : List Char) : AfterOperand (' ' :: '?' :: text) where
  toEndsOperand := .question text
  name := rfl
  call := rfl

end AfterOperand

theorem EndsExpr.afterOperand {rest : List Char} (h : EndsExpr rest) : AfterOperand rest where
  toEndsOperand := h.endsOperand
  name := h.stopsName
  call := h.not_call

/-- The operands of chains and what they mean: a name that is no word for a literal, and an accepted
text in parentheses. -/
inductive IsOperand : List Char → Expr → Prop where
  | name {x : String} (hx : isName x) (hkeyword : isKeyword x = false) :
    IsOperand x.toList (.var {} x)
  | group {text : String} {reading : Reading} (h : Reading.parse text = .ok reading) :
    IsOperand (parenthesize text.toList) reading.expr.erase

structure Operand where
  text : List Char
  tree : Expr
  isOperand : IsOperand text tree

theorem Operand.newline_not_mem (operand : Operand) : '\n' ∉ operand.text := by
  obtain ⟨text, tree, h⟩ := operand
  cases h with
  | name hx => exact newline_not_mem_name hx
  | group h => exact mt newline_mem_parenthesize.mp (Reading.not_newline h)

theorem Operand.length_pos (operand : Operand) : 0 < operand.text.length := by
  obtain ⟨text, tree, h⟩ := operand
  cases h with
  | name hx =>
    obtain ⟨c, cs, hcons, -⟩ := exists_cons_of_isName hx
    simp [hcons]
  | group h => simp

namespace Parser

variable {rest : List Char} {k n : Nat}

/-- An accepted text in parentheses is no parameter list where no arrow follows. -/
theorem reads_group {text : String} {reading : Reading} (h : Reading.parse text = .ok reading)
    (hk : text.toList.length ≤ k)
    (arrow : "=>".toList.isPrefixOf (rest.dropWhile isBlank) = false) :
    Reads (primary n (expr k)) (Near (parenthesize text.toList ++ rest))
      (·.erase = reading.expr.erase) (· = rest) := by
  have closed : EndsExpr (')' :: rest) := .cons (by decide) rest
  have inner := Reading.reads_on h closed hk
  have hparenthesized : parenthesize text.toList ++ rest = '(' :: (text.toList ++ ')' :: rest) := by
    simp [parenthesize]
  obtain ⟨e, c, run, -, hc⟩ := inner { rest := text.toList ++ ')' :: rest } (.refl _)
  rw [hparenthesized]
  refine reads_primary_paren (reads_offset.bind fun start _ => ?_)
  have none := reads_parameters?_inside (extendsNested_expr [] k).toStops run hc arrow n
  refine none.bind_eq ((reads_skip 1).bind fun _ _ => ?_)
  refine inner.at_of_near.bind fun e' he' => ?_
  exact (reads_expect ")" rfl).bind fun _ _ => .pure he'

theorem reads_bareName {x : String} (hx : isName x) (hkeyword : isKeyword x = false)
    (hrest : AfterOperand rest) {expr : Parser Expr} :
    Reads (primary n expr) (Near (x.toList ++ rest)) (·.erase = .var {} x) (Near rest) := by
  refine reads_primary_name hx hrest.name fun start v hv => reads_named (by rwa [hv]) ?_
  refine (reads_eat_not _ hrest.arrow).at_of_near.bind_eq ?_
  refine (reads_eat_not _ hrest.call).bind_eq ?_
  refine reads_freshIndex.bind fun index _ => .pure ?_
  rw [hv]
  rfl

/-- The parser of operands reads all those of at most `n` characters. -/
def ReadsOperands (n : Nat) (p : Parser Expr) : Prop :=
  ∀ (operand : Operand) (rest : List Char), operand.text.length ≤ n → AfterOperand rest →
    Reads p (Near (operand.text ++ rest)) (·.erase = operand.tree) (Near rest)

theorem readsOperands_prefixed (k : Nat) :
    ReadsOperands (k + 1) (prefixed (postfixed (k + 1) (expr k)) (k + 1)) := by
  rintro ⟨text, tree, hoperand⟩ rest hlength hrest
  cases hoperand with
  | @name x hx hkeyword =>
    refine reads_prefixed ?_ ?_
    · exact reads_postfixed (reads_bareName hx hkeyword hrest) hrest.toEndsOperand
    · obtain ⟨c, cs, hcons, hstart, -⟩ := exists_cons_of_isName hx
      rw [dropWhile_name hx, hcons]
      exact at?_eq_none _ (ne_of_isNameStart hstart rfl) (ne_of_isNameStart hstart rfl)
  | group h =>
    rw [length_parenthesize] at hlength
    refine reads_prefixed (reads_postfixed ?_ hrest.toEndsOperand) rfl
    exact (reads_group h (by omega) hrest.arrow).near_of_at

end Parser

/-! ## Levels -/

namespace BinaryOp

theorem levels_pairwise : levels.Pairwise fun looser tighter =>
    ∀ op ∈ looser, ∀ op' ∈ tighter, op.precedence < op'.precedence := by
  decide

theorem precedence_eq_of_mem_level {level : List BinaryOp} (hlevel : level ∈ levels)
    {op op' : BinaryOp} (h : op ∈ level) (h' : op' ∈ level) : op.precedence = op'.precedence := by
  have heq : ∀ level ∈ levels, ∀ op ∈ level, ∀ op' ∈ level, op.precedence = op'.precedence := by
    decide
  exact heq level hlevel op h op' h'

theorem exists_mem_levels (op : BinaryOp) : ∃ level ∈ levels, op ∈ level := by
  cases op <;> decide

/-- Where a token stands alone, each level sees its own operator and no other. -/
theorem standing?_token {level : List BinaryOp} (hlevel : level ∈ levels) (op : BinaryOp)
    (text : List Char) : standing? (op.token.toList ++ ' ' :: text) level =
      if op ∈ level then some op else none := by
  fin_cases hlevel <;> cases op <;> rfl

theorem dropWhile_token (op : BinaryOp) (text : List Char) :
    (' ' :: (op.token.toList ++ text)).dropWhile isBlank = op.token.toList ++ text := by
  cases op <;> rfl

end BinaryOp

/-- None of these levels sees an operator. -/
def NoneStands (levels : List (List BinaryOp)) (rest : List Char) : Prop :=
  ∀ level ∈ levels, BinaryOp.standing? (rest.dropWhile isBlank) level = none

namespace Chain

/-- The operators are all on one of these levels. -/
def On {α : Type} (levels : List (List BinaryOp)) (links : List (BinaryOp × α)) : Prop :=
  ∀ link ∈ links, ∃ level ∈ levels, link.1 ∈ level

namespace On

variable {α : Type} {level : List BinaryOp} {tighter : List (List BinaryOp)}
  {links links' : List (BinaryOp × α)} {op : BinaryOp}

theorem append (h : On tighter links) (h' : On tighter links') : On tighter (links ++ links') :=
  List.forall_mem_append.mpr ⟨h, h'⟩

theorem weaken (h : On tighter links) : On (level :: tighter) links := by
  intro link hlink
  obtain ⟨other, hother, hin⟩ := h link hlink
  exact ⟨other, List.mem_cons_of_mem _ hother, hin⟩

/-- Up to the first operator of the loosest level, all operators are tighter. -/
theorem exists_split (h : On (level :: tighter) links) : ∃ front behind,
    links = front ++ behind ∧ On tighter front ∧ ∀ link ∈ behind.head?, link.1 ∈ level := by
  induction links with
  | nil => exact ⟨[], [], rfl, nofun, nofun⟩
  | cons link links ih =>
    by_cases hlink : link.1 ∈ level
    · refine ⟨[], link :: links, rfl, nofun, ?_⟩
      rintro _ ⟨⟩
      exact hlink
    · obtain ⟨hfirst, hrest⟩ := List.forall_mem_cons.mp h
      obtain ⟨front, behind, rfl, hfront, hbehind⟩ := ih hrest
      obtain ⟨other, hother, hin⟩ := hfirst
      rcases List.mem_cons.mp hother with rfl | hother
      · exact absurd hin hlink
      · exact ⟨link :: front, behind, rfl, List.forall_mem_cons.mpr ⟨⟨other, hother, hin⟩, hfront⟩,
          hbehind⟩

variable (hlevels : (level :: tighter).Sublist BinaryOp.levels) (hop : op ∈ level)
include hlevels hop

theorem precedence_lt (h : On tighter links) :
    ∀ link ∈ links, op.precedence < link.1.precedence := by
  intro link hlink
  obtain ⟨other, hother, hin⟩ := h link hlink
  have hpairwise := List.pairwise_cons.mp (BinaryOp.levels_pairwise.sublist hlevels)
  exact hpairwise.1 other hother op hop link.1 hin

theorem precedence_le (h : On (level :: tighter) links) :
    ∀ link ∈ links, op.precedence ≤ link.1.precedence := by
  intro link hlink
  obtain ⟨other, hother, hin⟩ := h link hlink
  rcases List.mem_cons.mp hother with rfl | hother
  · have hlevel := hlevels.subset List.mem_cons_self
    exact (BinaryOp.precedence_eq_of_mem_level hlevel hop hin).le
  · have htight : On tighter [link] := List.forall_mem_singleton.mpr ⟨other, hother, hin⟩
    exact (precedence_lt hlevels hop htight link List.mem_cons_self).le

end On

/-- What the chain means, from what its operands mean. -/
def meaning (chain : Chain Operand) : Expr := (chain.map Operand.tree).tree

/-- How the chain is written. -/
def written (chain : Chain Operand) : List Char := (chain.map Operand.text).text

def writtenLinks (links : List (BinaryOp × Operand)) : List Char :=
  linksText (links.map fun (op, operand) => (op, operand.text))

theorem written_eq (chain : Chain Operand) :
    chain.written = chain.first.text ++ writtenLinks chain.links :=
  rfl

theorem writtenLinks_cons (op : BinaryOp) (operand : Operand) (links : List (BinaryOp × Operand)) :
    writtenLinks ((op, operand) :: links) =
      ' ' :: (op.token.toList ++ ' ' :: (operand.text ++ writtenLinks links)) := by
  simp [writtenLinks, linksText]

theorem writtenLinks_append (links links' : List (BinaryOp × Operand)) :
    writtenLinks (links ++ links') = writtenLinks links ++ writtenLinks links' := by
  simp [writtenLinks, linksText]

theorem meaning_single (operand : Operand) : meaning ⟨operand, []⟩ = operand.tree :=
  tree_single operand.tree

theorem meaning_join {lhs rhs : Chain Operand} {op : BinaryOp}
    (hlhs : ∀ link ∈ lhs.links, op.precedence ≤ link.1.precedence)
    (hrhs : ∀ link ∈ rhs.links, op.precedence < link.1.precedence) :
    (lhs.join op rhs).meaning = .binary {} op lhs.meaning rhs.meaning := by
  have hmap : (lhs.join op rhs).map Operand.tree =
      (lhs.map Operand.tree).join op (rhs.map Operand.tree) := by
    simp [join, map]
  rw [meaning, hmap]
  exact tree_join (List.forall_mem_map.mpr hlhs) (List.forall_mem_map.mpr hrhs)

theorem length_le_writtenLinks (links : List (BinaryOp × Operand)) :
    links.length ≤ (writtenLinks links).length := by
  induction links with
  | nil => exact Nat.zero_le _
  | cons link links ih =>
    obtain ⟨op, operand⟩ := link
    rw [writtenLinks_cons]
    simp only [List.length_cons, List.length_append]
    omega

theorem length_written (chain : Chain Operand) :
    chain.written.length = chain.first.text.length + (writtenLinks chain.links).length :=
  List.length_append

theorem newline_not_mem_writtenLinks (links : List (BinaryOp × Operand)) :
    '\n' ∉ writtenLinks links := by
  induction links with
  | nil => exact List.not_mem_nil
  | cons link links ih =>
    obtain ⟨op, operand⟩ := link
    rw [writtenLinks_cons]
    simp [newline_not_mem_binary op, operand.newline_not_mem, ih]

theorem newline_not_mem_written (chain : Chain Operand) : '\n' ∉ chain.written := by
  rw [written_eq, List.mem_append, not_or]
  exact ⟨chain.first.newline_not_mem, newline_not_mem_writtenLinks chain.links⟩

section

variable {rest : List Char} {links : List (BinaryOp × Operand)}

theorem afterOperand_writtenLinks (hrest : AfterOperand rest) :
    AfterOperand (writtenLinks links ++ rest) := by
  cases links with
  | nil => exact hrest
  | cons link links =>
    obtain ⟨op, operand⟩ := link
    rw [writtenLinks_cons, List.cons_append, List.append_assoc, List.cons_append]
    exact .token op _

/-- An operator that one level sees is seen by no tighter level. -/
theorem noneStands_writtenLinks {level : List BinaryOp} {tighter : List (List BinaryOp)}
    (hlevels : (level :: tighter).Sublist BinaryOp.levels) (hrest : NoneStands tighter rest)
    (hlinks : ∀ link ∈ links.head?, link.1 ∈ level) :
    NoneStands tighter (writtenLinks links ++ rest) := by
  cases links with
  | nil => exact hrest
  | cons link links =>
    obtain ⟨op, operand⟩ := link
    have hop : op ∈ level := hlinks _ rfl
    intro other hother
    rw [writtenLinks_cons, List.cons_append, List.append_assoc, BinaryOp.dropWhile_token,
      List.cons_append,
      BinaryOp.standing?_token (hlevels.subset (List.mem_cons_of_mem level hother))]
    refine if_neg fun hin => ?_
    have htight : On tighter [(op, operand)] :=
      List.forall_mem_singleton.mpr ⟨other, hother, hin⟩
    exact Nat.lt_irrefl _ (On.precedence_lt hlevels hop htight _ List.mem_cons_self)

end

end Chain

namespace Parser

open Chain (writtenLinks)

variable {operand : Parser Expr} {n : Nat} {rest : List Char} {level : List BinaryOp}
  {tighter : List (List BinaryOp)}

/-- These levels read the chains of their operators, of at most `n` characters. -/
def ReadsChains (n : Nat) (levels : List (List BinaryOp)) (p : Parser Expr) : Prop :=
  ∀ (chain : Chain Operand) (rest : List Char), Chain.On levels chain.links →
    chain.written.length ≤ n → AfterOperand rest → NoneStands levels rest →
      Reads p (Near (chain.written ++ rest)) (·.erase = chain.meaning) (Near rest)

section

variable (hlevels : (level :: tighter).Sublist BinaryOp.levels)
  (inner : ReadsChains n tighter (binary n operand tighter)) (hrest : AfterOperand rest)
  (hstands : NoneStands (level :: tighter) rest)
include hlevels inner hrest hstands

/-- A chain of tighter operators is read up to the next operator of the level. -/
theorem reads_tighter (chain : Chain Operand) (hchain : Chain.On tighter chain.links)
    {links : List (BinaryOp × Operand)} (hhead : ∀ link ∈ links.head?, link.1 ∈ level)
    (hn : chain.written.length ≤ n) :
    Reads (binary n operand tighter) (Near (chain.written ++ (writtenLinks links ++ rest)))
      (·.erase = chain.meaning) (Near (writtenLinks links ++ rest)) := by
  refine inner chain _ hchain hn (Chain.afterOperand_writtenLinks hrest) ?_
  refine Chain.noneStands_writtenLinks hlevels (fun other hother => ?_) hhead
  exact hstands other (List.mem_cons_of_mem level hother)

/-- One level goes on with a chain that it has read: turn by turn, it joins to it the chains of
tighter operators that stand between its own. -/
theorem reads_chain_links (start : Nat) {m : Nat} (lhs : Chain Operand)
    {links : List (BinaryOp × Operand)} {e : Expr} (hlhs : Chain.On (level :: tighter) lhs.links)
    (hlinks : Chain.On (level :: tighter) links) (hhead : ∀ link ∈ links.head?, link.1 ∈ level)
    (hn : (writtenLinks links).length ≤ n) (hm : links.length ≤ m) (he : e.erase = lhs.meaning) :
    Reads (chain (binary n operand tighter) level start m e) (Near (writtenLinks links ++ rest))
      (·.erase = Chain.meaning ⟨lhs.first, lhs.links ++ links⟩) (Near rest) := by
  have hlevel : level ∈ BinaryOp.levels := hlevels.subset List.mem_cons_self
  induction m generalizing lhs links e with
  | zero =>
    obtain rfl : links = [] := List.length_eq_zero_iff.mp (Nat.le_zero.mp hm)
    rw [List.append_nil]
    exact reads_chain_end start he (hstands level List.mem_cons_self)
  | succ m ih =>
    cases links with
    | nil =>
      rw [List.append_nil]
      exact reads_chain_end start he (hstands level List.mem_cons_self)
    | cons link links =>
      obtain ⟨op, first⟩ := link
      have hop : op ∈ level := hhead _ rfl
      obtain ⟨front, behind, rfl, hfront, hbehind⟩ :=
        Chain.On.exists_split (List.forall_mem_cons.mp hlinks).2
      let rhs : Chain Operand := ⟨first, front⟩
      have hwritten : writtenLinks ((op, first) :: (front ++ behind)) ++ rest =
          ' ' :: (op.token.toList ++ ' ' :: (rhs.written ++ (writtenLinks behind ++ rest))) := by
        rw [Chain.writtenLinks_cons, Chain.writtenLinks_append, rhs.written_eq]
        simp [rhs]
      have hlength := congrArg List.length hwritten
      simp only [List.length_append, List.length_cons] at hlength hm
      have hsees :=
        BinaryOp.standing?_token hlevel op (rhs.written ++ (writtenLinks behind ++ rest))
      rw [if_pos hop] at hsees
      rw [hwritten, chain]
      refine (reads_operator? (BinaryOp.dropWhile_token op _) hsees).bind_eq ?_
      have right := reads_tighter hlevels inner hrest hstands rhs hfront hbehind (by omega)
      refine right.skip_blank.bind fun e' he' => (reads_node start).bind fun node _ => ?_
      -- the level is split at its last operator so far
      have hjoin : (Expr.binary node op e e').erase = (lhs.join op rhs).meaning := by
        rw [Chain.meaning_join (hlhs.precedence_le hlevels hop) (hfront.precedence_lt hlevels hop),
          ← he, ← he']
        rfl
      have hjoined : Chain.On (level :: tighter) (lhs.join op rhs).links :=
        hlhs.append (List.forall_mem_cons.mpr ⟨⟨level, List.mem_cons_self, hop⟩, hfront.weaken⟩)
      have hmore : Chain.On (level :: tighter) behind :=
        (List.forall_mem_append.mp (List.forall_mem_cons.mp hlinks).2).2
      have further := ih (lhs.join op rhs) hjoined hmore hbehind (by omega) (by omega) hjoin
      have hall : (lhs.join op rhs).links ++ behind =
          lhs.links ++ (op, first) :: (front ++ behind) := by
        simp [Chain.join, rhs]
      rwa [hall] at further

end

theorem readsChains_binary (inner : ReadsOperands n operand) {levels : List (List BinaryOp)}
    (hlevels : levels.Sublist BinaryOp.levels) :
    ReadsChains n levels (binary n operand levels) := by
  induction levels with
  | nil =>
    rintro ⟨first, links⟩ rest hon hn hrest -
    obtain rfl : links = [] := by
      refine List.eq_nil_iff_forall_not_mem.mpr fun link hlink => ?_
      obtain ⟨level, hlevel, -⟩ := hon link hlink
      cases hlevel
    have hwritten : Chain.written ⟨first, []⟩ = first.text := by
      rw [Chain.written_eq]
      exact List.append_nil _
    rw [hwritten] at hn ⊢
    rw [Chain.meaning_single]
    exact inner first rest hn hrest
  | cons level tighter ih =>
    rintro ⟨first, links⟩ rest hon hn hrest hstands
    have tight := ih ((List.sublist_cons_self _ _).trans hlevels)
    obtain ⟨front, behind, rfl, hfront, hbehind⟩ := hon.exists_split
    let lhs : Chain Operand := ⟨first, front⟩
    have hwritten : Chain.written ⟨first, front ++ behind⟩ ++ rest =
        lhs.written ++ (writtenLinks behind ++ rest) := by
      rw [Chain.written_eq, Chain.writtenLinks_append, lhs.written_eq]
      simp [lhs]
    have hlength := congrArg List.length hwritten
    simp only [List.length_append] at hlength
    have hcount := Chain.length_le_writtenLinks behind
    rw [hwritten]
    refine reads_start fun start => ?_
    have left := reads_tighter hlevels tight hrest hstands lhs hfront hbehind (by omega)
    refine left.from_blanks.bind fun e he => ?_
    exact reads_chain_links hlevels tight hrest hstands start lhs hfront.weaken
      (List.forall_mem_append.mp hon).2 hbehind (by omega) (by omega) he

/-! ## Expressions -/

variable {k : Nat}

theorem reads_expr_chain (chain : Chain Operand) (hrest : EndsExpr rest)
    (hk : chain.written.length ≤ k + 1) :
    Reads (expr (k + 1)) (Near (chain.written ++ rest)) (·.erase = chain.meaning) (Near rest) := by
  have read := readsChains_binary (readsOperands_prefixed k) (List.Sublist.refl _)
  refine reads_conditional ?_ hrest.not_question
  refine read chain rest (fun link _ => link.1.exists_mem_levels) hk hrest.afterOperand ?_
  exact fun level hlevel => hrest.standing?_eq_none hlevel

theorem noneStands_question (text : List Char) :
    NoneStands BinaryOp.levels (' ' :: '?' :: ' ' :: text) := by
  intro level hlevel
  fin_cases hlevel <;> rfl

/-- The whole chain is the condition. -/
theorem reads_expr_conditional (chain : Chain Operand) {whenTrue whenFalse : String}
    {ifTrue ifFalse : Reading} (htrue : Reading.parse whenTrue = .ok ifTrue)
    (hfalse : Reading.parse whenFalse = .ok ifFalse) (hk : chain.written.length ≤ k + 1)
    (hktrue : whenTrue.toList.length ≤ k) (hkfalse : whenFalse.toList.length ≤ k) :
    Reads (expr (k + 1)) (Near (chain.written ++
        ' ' :: '?' :: ' ' :: (whenTrue.toList ++ ' ' :: ':' :: ' ' :: whenFalse.toList)))
      (·.erase = .ternary {} chain.meaning ifTrue.expr.erase ifFalse.expr.erase) (Near []) := by
  have read := readsChains_binary (readsOperands_prefixed k) (List.Sublist.refl _)
  refine reads_start fun start => ?_
  have condition := read chain _ (fun link _ => link.1.exists_mem_levels) hk
    (.question (' ' :: (whenTrue.toList ++ ' ' :: ':' :: ' ' :: whenFalse.toList)))
    (noneStands_question _)
  refine condition.from_blanks.bind fun e he => reads_skipBlanks.bind fun _ _ => ?_
  refine reads_rest.bind_eq ((reads_skip 1).bind fun _ _ => ?_)
  have colon : EndsExpr (' ' :: ':' :: ' ' :: whenFalse.toList) :=
    (EndsExpr.cons (by decide) _).blank
  refine (Reading.reads_on htrue colon hktrue).skip_blank.bind fun e' he' => ?_
  refine (reads_expect ":" rfl).bind fun _ _ => ?_
  have last := Reading.reads_on hfalse .nil hkfalse
  rw [List.append_nil] at last
  refine last.skip_blank.bind fun e'' he'' => (reads_node start).bind fun node _ => .pure ?_
  show Expr.ternary {} e.erase e'.erase e''.erase = _
  rw [he, he', he'']

end Parser

namespace Chain

theorem length_written_pos (chain : Chain Operand) : 0 < chain.written.length := by
  rw [length_written]
  exact Nat.add_pos_left chain.first.length_pos _

theorem parse_written (chain : Chain Operand) :
    ∃ reading, Reading.parse (.ofList chain.written) = .ok reading ∧
      reading.expr.erase = chain.meaning := by
  obtain ⟨k, hk⟩ := Nat.exists_eq_add_of_le' chain.length_written_pos
  refine Reading.parse_of_reads chain.newline_not_mem_written ?_
  rw [hk]
  have read := Parser.reads_expr_chain chain .nil hk.le
  rw [List.append_nil] at read
  exact read.at_of_near

theorem parse_condition (chain : Chain Operand) {whenTrue whenFalse : String}
    {ifTrue ifFalse : Reading} (htrue : Reading.parse whenTrue = .ok ifTrue)
    (hfalse : Reading.parse whenFalse = .ok ifFalse) :
    ∃ reading, Reading.parse (.ofList (chain.written ++ " ? ".toList ++ whenTrue.toList ++
        " : ".toList ++ whenFalse.toList)) = .ok reading ∧
      reading.expr.erase = .ternary {} chain.meaning ifTrue.expr.erase ifFalse.expr.erase := by
  let text := chain.written ++
    ' ' :: '?' :: ' ' :: (whenTrue.toList ++ ' ' :: ':' :: ' ' :: whenFalse.toList)
  have htext : chain.written ++ " ? ".toList ++ whenTrue.toList ++ " : ".toList ++
      whenFalse.toList = text := by
    simp [text]
  have hline : '\n' ∉ text := by
    simp [text, chain.newline_not_mem_written, Reading.not_newline htrue,
      Reading.not_newline hfalse]
  have hlength : text.length =
      chain.written.length + (whenTrue.toList.length + whenFalse.toList.length + 6) := by
    simp only [text, List.length_append, List.length_cons]
    omega
  obtain ⟨k, hk⟩ : ∃ k, text.length = k + 1 := Nat.exists_eq_add_of_le' (by omega)
  rw [htext]
  refine Reading.parse_of_reads hline ?_
  rw [hk]
  exact (Parser.reads_expr_conditional chain htrue hfalse (by omega) (by omega)
    (by omega)).at_of_near

/-- A chain of operators is read as the tree that it is split into at the rightmost of its loosest
operators, and before a question mark it is the condition as a whole. -/
theorem read_by_precedence (chain : Chain Operand) :
    (∃ reading, Reading.parse (.ofList chain.written) = .ok reading ∧
      reading.expr.erase = chain.meaning) ∧
    ∀ (whenTrue whenFalse : String) (ifTrue ifFalse : Reading),
      Reading.parse whenTrue = .ok ifTrue → Reading.parse whenFalse = .ok ifFalse →
      ∃ reading, Reading.parse (.ofList (chain.written ++ " ? ".toList ++ whenTrue.toList ++
          " : ".toList ++ whenFalse.toList)) = .ok reading ∧
        reading.expr.erase =
          .ternary {} chain.meaning ifTrue.expr.erase ifFalse.expr.erase :=
  ⟨parse_written chain, fun _ _ _ _ => parse_condition chain⟩

/-- Two differences, a product and `??`. -/
def differences (middle : Operand) : Chain Operand where
  first := ⟨"a".toList, .var {} "a", .name (by decide) (by decide)⟩
  links := [
    (.sub, middle),
    (.sub, ⟨"c".toList, .var {} "c", .name (by decide) (by decide)⟩),
    (.mul, ⟨"d".toList, .var {} "d", .name (by decide) (by decide)⟩),
    (.coalesce, ⟨"e".toList, .var {} "e", .name (by decide) (by decide)⟩)]

/-- The differences are taken from the left, after the product and before `??`. -/
def differencesTree (middle : Expr) : Expr :=
  .binary {} .coalesce
    (.binary {} .sub (.binary {} .sub (.var {} "a") middle)
      (.binary {} .mul (.var {} "c") (.var {} "d")))
    (.var {} "e")

theorem meaning_differences (middle : Operand) :
    (differences middle).meaning = differencesTree middle.tree := by
  cbv

theorem read_by_precedence_differences :
    ∃ b, Reading.parse "b" = .ok b ∧ b.expr.erase = .var {} "b" ∧
    (∃ reading, Reading.parse "a - (b) - c * d ?? e" = .ok reading ∧
      reading.expr.erase = differencesTree (.var {} "b")) ∧
    ∃ reading, Reading.parse "a - (b) - c * d ?? e ? b : b" = .ok reading ∧
      reading.expr.erase =
        .ternary {} (differencesTree (.var {} "b")) (.var {} "b") (.var {} "b") := by
  let name : Operand := ⟨"b".toList, .var {} "b", .name (by decide) (by decide)⟩
  obtain ⟨b, hb, he⟩ := parse_written ⟨name, []⟩
  rw [show String.ofList (written ⟨name, []⟩) = "b" from by cbv] at hb
  rw [meaning_single] at he
  let middle : Operand := ⟨"(b)".toList, b.expr.erase, .group hb⟩
  have halone : String.ofList (differences middle).written = "a - (b) - c * d ?? e" := by
    cbv
  have hcondition : String.ofList ((differences middle).written ++ " ? ".toList ++ "b".toList ++
      " : ".toList ++ "b".toList) = "a - (b) - c * d ?? e ? b : b" := by
    cbv
  have hmeaning : (differences middle).meaning = differencesTree (.var {} "b") := by
    rw [meaning_differences, ← show b.expr.erase = .var {} "b" from he]
  obtain ⟨alone, condition⟩ := read_by_precedence (differences middle)
  have conditional := condition "b" "b" b b hb hb
  rw [halone, hmeaning] at alone
  rw [hcondition, hmeaning, he] at conditional
  exact ⟨b, hb, he, alone, conditional⟩

end Chain

end Preflight
