import Mathlib.Order.Defs.Unbundled
import Preflight.Proofs.OnePass.Follows

/-! # Where the cursor has been

The moves of a reading lead from where it began to where it stands. They go forward, but for those
of parameter lists that are given up, each of which goes back to where its list began. -/

namespace Preflight
set_option autoImplicit false

namespace OnePass

/-- Moves from one offset forward to another, the last of them first. -/
inductive Forward (start : Nat) : List Move → Nat → Prop where
  | here : Forward start [] start
  | move {stop stop' : Nat} {moves : List Move} :
    Forward start moves stop → stop ≤ stop' → Forward start (.forward stop stop' :: moves) stop'

/-- The cursor went forward and the binder was left alone. -/
def Onward (s s' : Session) : Prop :=
  ∃ moves, Forward s.offset moves s'.offset ∧
    s' = { s with offset := s'.offset, trail := moves ++ s.trail }

/-- A session as a parameter list leaves it that began there, went forward to `stop`, and was given
up. -/
def Session.backFrom (stop : Nat) (moves : List Move) (s : Session) : Session :=
  { s with trail := .back stop s.offset s.binder s.binder :: (moves ++ s.trail) }

/-- The trail of a reading that began in `s`, and where it leads to. -/
inductive Led (text : List Char) (base : Position) (s : Session) : List Move → Nat → Prop where
  | start : Led text base s s.trail s.offset
  | forward {trail : List Move} {start stop : Nat} :
    Led text base s trail start → start ≤ stop →
      Led text base s (.forward start stop :: trail) stop
  | gaveUp {depth stop : Nat} {moves : List Move} {t : Session} :
    Led text base s t.trail t.offset → Forward t.offset moves stop →
      (parameters? text base depth).outcome t = some (.ok none, t.backFrom stop moves) →
      Led text base s (t.backFrom stop moves).trail t.offset

def Leads (text : List Char) (base : Position) (s s' : Session) : Prop :=
  Led text base s s'.trail s'.offset

/-! ## Relations between the ends of a reading -/

/-- However it comes out, `q` ends in a session that stands in `R` to the one it began in. -/
def Respects {α : Type} (R : Session → Session → Prop) (q : Reader α) : Prop :=
  ∀ s answer s', q.outcome s = some (answer, s') → R s s'

namespace Respects

variable {α β : Type} {R R' : Session → Session → Prop} {q : Reader α} {g : α → Reader β}

theorem imp (h : Respects R q) (hR : ∀ s s', R s s' → R' s s') : Respects R' q :=
  fun s answer s' hq => hR s s' (h s answer s' hq)

theorem tooDeep : Respects R (tooDeep : Reader α) := nofun

theorem of_outcome {change : Session → Session} (hR : ∀ s, R s (change s))
    (hq : ∀ s, ∃ answer, q.outcome s = some (answer, change s)) : Respects R q := by
  intro s answer s' hs
  obtain ⟨answer', hq⟩ := hq s
  cases hq.symm.trans hs
  exact hR s

section

variable [Std.Refl R]

theorem still (hq : ∀ s, ∃ answer, q.outcome s = some (answer, s)) : Respects R q :=
  of_outcome refl hq

theorem pure (a : α) : Respects R (pure a : Reader α) := still fun _ => ⟨_, rfl⟩

theorem throw (cause : Failure) : Respects R (throw cause : Reader α) := still fun _ => ⟨_, rfl⟩

theorem fail (cause : SyntaxError) : Respects R (fail cause : Reader α) := throw _

theorem get : Respects R (get : Reader Session) := still fun _ => ⟨_, rfl⟩

end

theorem bind [IsTrans Session R] (hq : Respects R q) (hg : ∀ a, Respects R (g a)) :
    Respects R (q >>= g) := by
  intro s answer s' h
  rw [Reader.outcome_bind] at h
  obtain ⟨⟨result, t⟩, ht, h⟩ := Option.bind_eq_some_iff.mp h
  cases result with
  | ok a => exact IsTrans.trans _ _ _ (hq s _ t ht) (hg a t answer s' h)
  | error cause =>
    cases h
    exact hq s _ s' ht

end Respects

/-! ## Going forward -/

theorem Forward.append {start stop stop' : Nat} {moves moves' : List Move}
    (h : Forward start moves stop) (h' : Forward stop moves' stop') :
    Forward start (moves' ++ moves) stop' := by
  induction h' with
  | here => exact h
  | move _ hle ih => exact .move ih hle

instance : Std.Refl Onward where
  refl _ := ⟨[], .here, rfl⟩

instance : IsTrans Session Onward where
  trans s t u := by
    rintro ⟨moves, forward, ht⟩ ⟨moves', forward', hu⟩
    refine ⟨moves' ++ moves, forward.append forward', ?_⟩
    rw [hu, ht, List.append_assoc]

theorem onward_moved (s : Session) (n : Nat) : Onward s (Setting.Along.moved s n) :=
  ⟨_, .move .here (Nat.le_add_right s.offset n), rfl⟩

theorem onward_advance (n : Nat) : Respects Onward (advance n) :=
  .of_outcome (onward_moved · n) fun _ => ⟨_, rfl⟩

section

variable {R : Session → Session → Prop} [Std.Refl R] (text : List Char) (base : Position)

theorem respects_offset : Respects R offset := .still fun _ => ⟨_, rfl⟩

theorem respects_column : Respects R column := .still fun _ => ⟨_, rfl⟩

theorem respects_byteAt (i : Nat) : Respects R (byteAt text i) := .still fun _ => ⟨_, rfl⟩

theorem respects_peek : Respects R (peek text) := .still fun _ => ⟨_, rfl⟩

theorem respects_spanFrom (start : Nat) : Respects R (spanFrom base start) :=
  .still fun _ => ⟨_, rfl⟩

theorem respects_rest : Respects R (rest text) := by
  apply Respects.still
  intro s
  unfold rest
  rw [Reader.outcome_offset_bind]
  split <;> exact ⟨_, rfl⟩

theorem respects_sliceFrom (start : Nat) : Respects R (sliceFrom text start) := by
  apply Respects.still
  intro s
  unfold sliceFrom
  rw [Reader.outcome_offset_bind]
  split <;> exact ⟨_, rfl⟩

end

theorem onward_passWhile (p : Char → Bool) (bytes : List Char) :
    Respects Onward (passWhile p bytes) := by
  induction bytes with
  | nil => exact .pure ()
  | cons b bytes ih =>
    rw [passWhile]
    split
    · exact (onward_advance 1).bind fun _ => ih
    · exact .pure ()

section

variable (text : List Char) (base : Position)

theorem onward_skipWhile (p : Char → Bool) : Respects Onward (skipWhile text p) :=
  respects_offset.bind fun _ => onward_passWhile p _

theorem onward_skipBlanks : Respects Onward (skipBlanks text) := onward_skipWhile text isBlank

theorem onward_eat (token : String) : Respects Onward (eat text token) := by
  refine (onward_skipBlanks text).bind fun _ => (respects_rest text).bind fun left => ?_
  split
  · exact (onward_advance _).bind fun _ => .pure true
  · exact .pure false

theorem onward_expect (token : String) : Respects Onward (expect text token) := by
  refine (onward_eat text token).bind fun found => ?_
  cases found with
  | true => exact .pure ()
  | false => exact respects_column.bind fun column => .fail _

theorem onward_atKeyword (word : String) : Respects Onward (atKeyword text word) :=
  (respects_rest text).bind fun _ => respects_offset.bind fun _ =>
    (respects_byteAt text _).bind fun _ => .pure _

theorem onward_name? : Respects Onward (name? text base) := by
  refine (onward_skipBlanks text).bind fun _ => respects_offset.bind fun start => ?_
  refine (respects_peek text).bind fun next => ?_
  split
  · refine (onward_advance 1).bind fun _ => (onward_skipWhile text _).bind fun _ => ?_
    refine (respects_sliceFrom text start).bind fun name => ?_
    exact (respects_spanFrom base start).bind fun span => .pure _
  · exact .pure none

theorem onward_moreParameters (depth : Nat) :
    Respects Onward (moreParameters text base depth) := by
  induction depth with
  | zero => exact .tooDeep
  | succ depth ih =>
    rw [moreParameters]
    refine (onward_name? text base).bind fun name => ?_
    cases name with
    | none => exact .pure none
    | some name =>
      refine (onward_eat text ")").bind fun closed => ?_
      split
      · exact .pure _
      · refine (onward_eat text ",").bind fun more => ?_
        split
        · exact ih.bind fun _ => .pure _
        · exact .pure none

theorem onward_loopVariable : Respects Onward (loopVariable text base) := by
  refine (onward_skipBlanks text).bind fun _ => respects_column.bind fun column => ?_
  refine (onward_name? text base).bind fun name => ?_
  cases name with
  | none => exact .fail _
  | some name => exact .pure name

theorem onward_loopVariables : Respects Onward (loopVariables text base) := by
  refine (onward_eat text "(").bind fun several => ?_
  split
  · refine (onward_loopVariable text base).bind fun item => ?_
    refine (onward_expect text ",").bind fun _ => ?_
    refine (onward_loopVariable text base).bind fun index => ?_
    exact (onward_expect text ")").bind fun _ => .pure _
  · exact (onward_loopVariable text base).bind fun item => .pure _

end

/-! ## Going back -/

/-- From any session onward of `s`, the cursor goes on, or back to `s` with no list. -/
def GoesOnOrBack (s : Session) (q : Reader (Option (List NameAt))) : Prop :=
  ∀ t answer s', Onward s t → q.outcome t = some (answer, s') →
    Onward s s' ∨ answer = .ok none ∧ ∃ stop moves, Forward s.offset moves stop ∧
      s' = s.backFrom stop moves

namespace GoesOnOrBack

variable {α : Type} {s : Session}

theorem of_onward {q : Reader (Option (List NameAt))} (h : Respects Onward q) :
    GoesOnOrBack s q :=
  fun t answer s' hs hq => .inl (IsTrans.trans s t s' hs (h t answer s' hq))

theorem bind {q : Reader α} {g : α → Reader (Option (List NameAt))} (hq : Respects Onward q)
    (hg : ∀ a, GoesOnOrBack s (g a)) : GoesOnOrBack s (q >>= g) := by
  intro t answer s' hs h
  rw [Reader.outcome_bind] at h
  obtain ⟨⟨result, u⟩, hu, h⟩ := Option.bind_eq_some_iff.mp h
  have honward := IsTrans.trans s t u hs (hq t _ u hu)
  cases result with
  | ok a => exact hg a u answer s' honward h
  | error cause =>
    cases h
    exact .inl honward

theorem moveBack : GoesOnOrBack s (do
    moveBack s
    return none) := by
  rintro t answer s' ⟨moves, forward, ht⟩ h
  cases h
  refine .inr ⟨rfl, t.offset, moves, forward, ?_⟩
  rw [ht]
  rfl

end GoesOnOrBack

section

variable (text : List Char) (base : Position)

theorem goesOnOrBack_arrow (s : Session) (params : Option (List NameAt)) :
    GoesOnOrBack s (do
      if let some params := params then
        if ← eat text "=>" then
          return some params
      moveBack s
      return none) := by
  cases params with
  | none => exact .moveBack
  | some params =>
    refine .bind (onward_eat text "=>") fun arrow => ?_
    cases arrow with
    | true => exact .of_onward (.pure _)
    | false => exact .moveBack

theorem goesOnOrBack_parameters? (depth : Nat) (s : Session) {answer : Except Failure _}
    {s' : Session} (h : (parameters? text base depth).outcome s = some (answer, s')) :
    Onward s s' ∨ answer = .ok none ∧ ∃ stop moves, Forward s.offset moves stop ∧
      s' = s.backFrom stop moves := by
  have body : GoesOnOrBack s (do
      advance 1
      let params ← if ← eat text ")" then pure (some []) else moreParameters text base depth
      if let some params := params then
        if ← eat text "=>" then
          return some params
      moveBack s
      return none) := by
    refine .bind (onward_advance 1) fun _ => .bind (onward_eat text ")") fun empty => ?_
    cases empty with
    | true => exact goesOnOrBack_arrow text s (some [])
    | false => exact .bind (onward_moreParameters text base depth) (goesOnOrBack_arrow text s)
  have hget : (get : Reader Session).outcome s = some (.ok s, s) := rfl
  rw [parameters?, Reader.outcome_bind_of_ok hget] at h
  exact body s answer s' (refl s) h

end

/-! ## The rules -/

section

variable {text : List Char} {base : Position}

theorem Led.of_forward {s : Session} {moves : List Move} {stop : Nat}
    (h : Forward s.offset moves stop) : Led text base s (moves ++ s.trail) stop := by
  induction h with
  | here => exact .start
  | move _ hle ih => exact .forward ih hle

theorem Led.trans {s t : Session} {trail : List Move} {stop : Nat} (h : Leads text base s t)
    (h' : Led text base t trail stop) : Led text base s trail stop := by
  induction h' with
  | start => exact h
  | forward _ hle ih => exact .forward ih hle
  | gaveUp _ forward hlist ih => exact .gaveUp ih forward hlist

instance : Std.Refl (Leads text base) where
  refl _ := .start

instance : IsTrans Session (Leads text base) where
  trans _ _ _ h h' := Led.trans h h'

theorem Leads.rebind (s : Session) (binder : BinderState) :
    Leads text base s { s with binder } :=
  .start

theorem Onward.leads {s s' : Session} (h : Onward s s') : Leads text base s s' := by
  obtain ⟨moves, forward, hs'⟩ := h
  rw [Leads, hs']
  exact .of_forward forward

end

/-- The moves that a reader makes lead from where it began to where it ends. -/
abbrev LeadsOn {α : Type} (text : List Char) (base : Position) (q : Reader α) : Prop :=
  Respects (Leads text base) q

theorem Respects.leadsOn {α : Type} {text : List Char} {base : Position} {q : Reader α}
    (h : Respects Onward q) : LeadsOn text base q :=
  h.imp fun _ _ => Onward.leads

variable (text : List Char) (base : Position)

theorem leadsOn_parameters? (depth : Nat) : LeadsOn text base (parameters? text base depth) := by
  intro s answer s' h
  rcases goesOnOrBack_parameters? text base depth s h with onward | ⟨rfl, stop, moves, forward, rfl⟩
  · exact onward.leads
  · exact .gaveUp .start forward h

section

variable {α : Type}

theorem leadsOn_advance (n : Nat) : LeadsOn text base (advance n) := (onward_advance n).leadsOn

theorem leadsOn_skipBlanks : LeadsOn text base (skipBlanks text) :=
  (onward_skipBlanks text).leadsOn

theorem leadsOn_eat (token : String) : LeadsOn text base (eat text token) :=
  (onward_eat text token).leadsOn

theorem leadsOn_expect (token : String) : LeadsOn text base (expect text token) :=
  (onward_expect text token).leadsOn

theorem leadsOn_name? : LeadsOn text base (name? text base) := (onward_name? text base).leadsOn

theorem leadsOn_freshIndex : LeadsOn text base freshIndex :=
  .of_outcome (Leads.rebind · _) fun _ => ⟨_, rfl⟩

theorem leadsOn_node (start : Nat) : LeadsOn text base (node base start) :=
  (respects_spanFrom base start).bind fun _ => (leadsOn_freshIndex text base).bind fun _ => .pure _

theorem leadsOn_lift (step : BinderState → Except BindError (α × BinderState)) :
    LeadsOn text base (lift step) := by
  refine Respects.get.bind fun s => ?_
  split
  · exact .throw _
  · exact Respects.bind (.of_outcome (Leads.rebind · _) fun _ => ⟨_, rfl⟩) fun _ => .pure _

theorem leadsOn_reference (index : Nat) (name : String) :
    LeadsOn text base (reference index name) := by
  refine Respects.get.bind fun s => ?_
  split
  · exact .pure ()
  · exact leadsOn_lift text base _

theorem leadsOn_leave (height : Nat) (result : Except Failure α) :
    LeadsOn text base (leave height result) := by
  refine Respects.bind (.of_outcome (Leads.rebind · _) fun _ => ⟨_, rfl⟩) fun _ => ?_
  cases result with
  | ok a => exact .pure a
  | error cause => exact .throw cause

/-- A body leads on, and so does what takes its names out of sight, however it came out. -/
theorem leadsOn_scope {q : Reader α} (hq : LeadsOn text base q) (height : Nat) :
    LeadsOn text base (bind (m := StateT Session Option) (ExceptT.run q) fun result =>
      leave height result) := by
  intro s answer s' h
  have hrun : Reader.outcome (bind (m := StateT Session Option) (ExceptT.run q) fun result =>
      leave height result) s =
      (q.outcome s).bind fun r => (leave height r.1 : Reader α).outcome r.2 := rfl
  rw [hrun] at h
  obtain ⟨⟨result, t⟩, ht, h⟩ := Option.bind_eq_some_iff.mp h
  exact Led.trans (hq s result t ht) (leadsOn_leave text base height result t answer s' h)

theorem leadsOn_mapM_declare (vs : List NameAt) : LeadsOn text base (vs.mapM declareLocal) := by
  induction vs with
  | nil => exact .pure []
  | cons v vs ih =>
    rw [List.mapM_cons]
    exact (leadsOn_lift text base _).bind fun x => ih.bind fun xs => .pure _

end

theorem leadsOn_integer : LeadsOn text base (integer text base) := by
  refine respects_offset.bind fun start => (respects_peek text).bind fun next => ?_
  extract_lets digits
  have hdigits : ∀ u, LeadsOn text base (digits u) := by
    intro u
    refine (onward_skipWhile text _).leadsOn.bind fun _ => ?_
    refine (respects_sliceFrom text start).bind fun slice => ?_
    have hvalue : LeadsOn text base (liftExcept (integerValue (start + 1) slice)) := by
      cases integerValue (start + 1) slice with
      | ok value => exact .pure value
      | error cause => exact .throw cause
    exact hvalue.bind fun _ => (leadsOn_node text base start).bind fun _ => .pure _
  split
  · exact (leadsOn_advance text base 1).bind hdigits
  · exact hdigits ()

/-- The rules that call one another lead on, with calls nested this deep. -/
structure RulesLead (depth : Nat) : Prop where
  expr : LeadsOn text base (expr text base depth)
  binary (levels : List (List BinaryOp)) : LeadsOn text base (binary text base depth levels)
  chain (level : List BinaryOp) (tighter : List (List BinaryOp)) (start : Nat) (lhs : Expr) :
    LeadsOn text base (chain text base depth level tighter start lhs)
  prefixed : LeadsOn text base (prefixed text base depth)
  postfixed : LeadsOn text base (postfixed text base depth)
  suffixes (start : Nat) (inner : Expr) : LeadsOn text base (suffixes text base depth start inner)
  list (close : String) : LeadsOn text base (list text base depth close)
  items (close : String) : LeadsOn text base (items text base depth close)
  primary : LeadsOn text base (primary text base depth)
  named (start : Nat) (name : NameAt) : LeadsOn text base (named text base depth start name)
  string : LeadsOn text base (string text base depth)
  segments (start : Nat) (segment : List Char) :
    LeadsOn text base (segments text base depth start segment)
  parenthesized : LeadsOn text base (parenthesized text base depth)
  lambda (start : Nat) (params : List NameAt) :
    LeadsOn text base (lambda text base depth start params)
  lambdaScope (height : Nat) (params : List NameAt) :
    LeadsOn text base (lambdaScope text base depth height params)
  lambdaBody (params : List NameAt) : LeadsOn text base (lambdaBody text base depth params)
  arrayOrLoop : LeadsOn text base (arrayOrLoop text base depth)
  loop (start : Nat) : LeadsOn text base (loop text base depth start)
  loopScope (height : Nat) (item : NameAt) (index : Option NameAt) :
    LeadsOn text base (loopScope text base depth height item index)
  loopBody (item : NameAt) (index : Option NameAt) :
    LeadsOn text base (loopBody text base depth item index)
  object : LeadsOn text base (object text base depth)
  properties : LeadsOn text base (properties text base depth)
  key : LeadsOn text base (key text base depth)

namespace RulesLead

theorem zero : RulesLead text base 0 := by
  constructor
  all_goals
    intros
    simp only [OnePass.expr, OnePass.binary, OnePass.chain, OnePass.prefixed, OnePass.postfixed,
      OnePass.suffixes, OnePass.list, OnePass.items, OnePass.primary, OnePass.named,
      OnePass.string, OnePass.segments, OnePass.parenthesized, OnePass.lambda,
      OnePass.lambdaScope, OnePass.lambdaBody, OnePass.arrayOrLoop, OnePass.loop,
      OnePass.loopScope, OnePass.loopBody, OnePass.object, OnePass.properties, OnePass.key]
    exact Respects.tooDeep

variable {text : List Char} {base : Position} {depth : Nat} (ih : RulesLead text base depth)
include ih

theorem expr_succ : LeadsOn text base (OnePass.expr text base (depth + 1)) := by
  rw [OnePass.expr]
  refine (leadsOn_skipBlanks text base).bind fun _ => respects_offset.bind fun start => ?_
  refine (ih.binary _).bind fun condition => (leadsOn_skipBlanks text base).bind fun _ => ?_
  refine (respects_peek text).bind fun next => ?_
  split
  · refine (leadsOn_advance text base 1).bind fun _ => ih.expr.bind fun ifTrue => ?_
    refine (leadsOn_expect text base ":").bind fun _ => ih.expr.bind fun ifFalse => ?_
    exact (leadsOn_node text base start).bind fun _ => .pure _
  · exact .pure condition

theorem binary_succ (levels : List (List BinaryOp)) :
    LeadsOn text base (OnePass.binary text base (depth + 1) levels) := by
  cases levels with
  | nil =>
    rw [OnePass.binary]
    exact ih.prefixed
  | cons level tighter =>
    rw [OnePass.binary]
    refine (leadsOn_skipBlanks text base).bind fun _ => respects_offset.bind fun start => ?_
    exact (ih.binary tighter).bind fun lhs => ih.chain level tighter start lhs

theorem chain_succ (level : List BinaryOp) (tighter : List (List BinaryOp)) (start : Nat)
    (lhs : Expr) :
    LeadsOn text base (OnePass.chain text base (depth + 1) level tighter start lhs) := by
  rw [OnePass.chain]
  refine (leadsOn_skipBlanks text base).bind fun _ => (respects_rest text).bind fun left => ?_
  split
  · exact .pure lhs
  · refine (leadsOn_advance text base _).bind fun _ => (ih.binary tighter).bind fun rhs => ?_
    exact (leadsOn_node text base start).bind fun _ => ih.chain _ _ _ _

theorem prefixed_succ : LeadsOn text base (OnePass.prefixed text base (depth + 1)) := by
  rw [OnePass.prefixed]
  refine (leadsOn_skipBlanks text base).bind fun _ => respects_offset.bind fun start => ?_
  refine (respects_byteAt text _).bind fun next => (respects_peek text).bind fun first => ?_
  split
  · exact ih.postfixed
  · refine (leadsOn_advance text base 1).bind fun _ => ih.prefixed.bind fun operand => ?_
    exact (leadsOn_node text base start).bind fun _ => .pure _

theorem postfixed_succ : LeadsOn text base (OnePass.postfixed text base (depth + 1)) := by
  rw [OnePass.postfixed]
  refine (leadsOn_skipBlanks text base).bind fun _ => respects_offset.bind fun start => ?_
  exact ih.primary.bind fun inner => ih.suffixes start inner

theorem suffixes_succ (start : Nat) (inner : Expr) :
    LeadsOn text base (OnePass.suffixes text base (depth + 1) start inner) := by
  rw [OnePass.suffixes]
  refine (leadsOn_skipBlanks text base).bind fun _ => (respects_peek text).bind fun next => ?_
  split
  · refine (leadsOn_advance text base 1).bind fun _ => ?_
    refine (leadsOn_name? text base).bind fun name => ?_
    cases name with
    | none => exact respects_column.bind fun _ => .fail _
    | some name =>
      refine (leadsOn_skipBlanks text base).bind fun _ => (respects_peek text).bind fun next => ?_
      split
      · refine (leadsOn_advance text base 1).bind fun _ => (ih.list ")").bind fun args => ?_
        exact (leadsOn_node text base start).bind fun _ => ih.suffixes start _
      · exact (leadsOn_node text base start).bind fun _ => ih.suffixes start _
  · refine (leadsOn_advance text base 1).bind fun _ => ih.expr.bind fun key => ?_
    refine (leadsOn_expect text base "]").bind fun _ => ?_
    exact (leadsOn_node text base start).bind fun _ => ih.suffixes start _
  · exact .pure inner

theorem list_succ (close : String) :
    LeadsOn text base (OnePass.list text base (depth + 1) close) := by
  rw [OnePass.list]
  refine (leadsOn_eat text base close).bind fun closed => ?_
  split
  · exact .pure []
  · exact ih.items close

theorem items_succ (close : String) :
    LeadsOn text base (OnePass.items text base (depth + 1) close) := by
  rw [OnePass.items]
  refine ih.expr.bind fun item => (leadsOn_eat text base close).bind fun closed => ?_
  split
  · exact .pure [item]
  · refine (leadsOn_expect text base ",").bind fun _ => ?_
    exact (ih.items close).bind fun items => .pure _

theorem primary_succ : LeadsOn text base (OnePass.primary text base (depth + 1)) := by
  rw [OnePass.primary]
  refine (leadsOn_skipBlanks text base).bind fun _ => respects_offset.bind fun start => ?_
  refine (respects_peek text).bind fun next => ?_
  split
  · exact .fail _
  · exact ih.string
  · exact ih.parenthesized
  · exact ih.arrayOrLoop
  · exact ih.object
  · split
    · exact leadsOn_integer text base
    · refine (leadsOn_name? text base).bind fun name => ?_
      cases name with
      | none => exact (respects_rest text).bind fun _ => respects_column.bind fun _ => .fail _
      | some name => exact ih.named start name

theorem named_succ (start : Nat) (name : NameAt) :
    LeadsOn text base (OnePass.named text base (depth + 1) start name) := by
  rw [OnePass.named]
  split
  · exact (leadsOn_node text base start).bind fun _ => .pure _
  · exact (leadsOn_node text base start).bind fun _ => .pure _
  · exact (leadsOn_node text base start).bind fun _ => .pure _
  · refine (leadsOn_eat text base "=>").bind fun arrow => ?_
    split
    · exact ih.lambda start [name]
    · refine (leadsOn_eat text base "(").bind fun called => ?_
      split
      · refine (ih.list ")").bind fun args => ?_
        exact (leadsOn_node text base start).bind fun _ => .pure _
      · refine (leadsOn_freshIndex text base).bind fun index => ?_
        exact (leadsOn_reference text base index _).bind fun _ => .pure _

theorem string_succ : LeadsOn text base (OnePass.string text base (depth + 1)) := by
  rw [OnePass.string]
  refine respects_offset.bind fun start => (leadsOn_advance text base 1).bind fun _ => ?_
  refine (ih.segments start []).bind fun parts => ?_
  exact (leadsOn_node text base start).bind fun _ => .pure _

theorem segments_succ (start : Nat) (segment : List Char) :
    LeadsOn text base (OnePass.segments text base (depth + 1) start segment) := by
  rw [OnePass.segments]
  refine (respects_rest text).bind fun left => ?_
  split
  · exact .fail _
  · exact (leadsOn_advance text base 1).bind fun _ => .pure _
  · refine (leadsOn_advance text base 1).bind fun _ => (respects_rest text).bind fun left => ?_
    split
    · exact respects_offset.bind fun _ => .fail _
    · exact (leadsOn_advance text base _).bind fun _ => ih.segments start _
  · refine (leadsOn_advance text base 2).bind fun _ => ih.expr.bind fun hole => ?_
    refine (leadsOn_expect text base _).bind fun _ => ?_
    exact (ih.segments start []).bind fun parts => .pure _
  · exact (leadsOn_advance text base _).bind fun _ => ih.segments start _

theorem parenthesized_succ : LeadsOn text base (OnePass.parenthesized text base (depth + 1)) := by
  rw [OnePass.parenthesized]
  refine respects_offset.bind fun start => ?_
  refine (leadsOn_parameters? text base depth).bind fun params => ?_
  split
  · exact ih.lambda start _
  · refine (leadsOn_advance text base 1).bind fun _ => ih.expr.bind fun inner => ?_
    exact (leadsOn_expect text base ")").bind fun _ => .pure inner

theorem lambda_succ (start : Nat) (params : List NameAt) :
    LeadsOn text base (OnePass.lambda text base (depth + 1) start params) := by
  rw [OnePass.lambda]
  refine Respects.get.bind fun s => (ih.lambdaScope _ params).bind fun scope => ?_
  exact (leadsOn_node text base start).bind fun _ => .pure _

theorem lambdaScope_succ (height : Nat) (params : List NameAt) :
    LeadsOn text base (OnePass.lambdaScope text base (depth + 1) height params) := by
  rw [OnePass.lambdaScope]
  exact leadsOn_scope text base (ih.lambdaBody params) height

theorem lambdaBody_succ (params : List NameAt) :
    LeadsOn text base (OnePass.lambdaBody text base (depth + 1) params) := by
  rw [OnePass.lambdaBody]
  refine (leadsOn_mapM_declare text base params).bind fun vars => ?_
  exact ih.expr.bind fun body => .pure _

theorem arrayOrLoop_succ : LeadsOn text base (OnePass.arrayOrLoop text base (depth + 1)) := by
  rw [OnePass.arrayOrLoop]
  refine respects_offset.bind fun start => (leadsOn_advance text base 1).bind fun _ => ?_
  refine (leadsOn_skipBlanks text base).bind fun _ => ?_
  refine (onward_atKeyword text "for").leadsOn.bind fun found => ?_
  split
  · exact (leadsOn_advance text base _).bind fun _ => ih.loop start
  · refine (ih.list "]").bind fun items => ?_
    exact (leadsOn_node text base start).bind fun _ => .pure _

theorem loop_succ (start : Nat) :
    LeadsOn text base (OnePass.loop text base (depth + 1) start) := by
  rw [OnePass.loop]
  refine (onward_loopVariables text base).leadsOn.bind fun vars => ?_
  refine (leadsOn_skipBlanks text base).bind fun _ => ?_
  refine (onward_atKeyword text "in").leadsOn.bind fun found => ?_
  -- `body` is what follows once the keyword is found
  extract_lets body
  have hbody : ∀ u, LeadsOn text base (body u) := by
    intro u
    refine (leadsOn_advance text base _).bind fun _ => ih.expr.bind fun collection => ?_
    refine (leadsOn_expect text base ":").bind fun _ => Respects.get.bind fun s => ?_
    refine (ih.loopScope _ vars.1 vars.2).bind fun scope => ?_
    refine (leadsOn_expect text base "]").bind fun _ => ?_
    exact (leadsOn_node text base start).bind fun _ => .pure _
  split
  · exact hbody ()
  · exact respects_column.bind fun _ => (Respects.fail _).bind hbody

theorem loopScope_succ (height : Nat) (item : NameAt) (index : Option NameAt) :
    LeadsOn text base (OnePass.loopScope text base (depth + 1) height item index) := by
  rw [OnePass.loopScope]
  exact leadsOn_scope text base (ih.loopBody item index) height

theorem loopBody_succ (item : NameAt) (index : Option NameAt) :
    LeadsOn text base (OnePass.loopBody text base (depth + 1) item index) := by
  rw [OnePass.loopBody]
  have hindex : LeadsOn text base (index.mapM declareLocal) := by
    cases index with
    | none => exact .pure none
    | some v =>
      rw [Option.mapM_some, map_eq_pure_bind]
      exact (leadsOn_lift text base _).bind fun x => .pure _
  refine (leadsOn_lift text base _).bind fun item => hindex.bind fun index => ?_
  exact ih.expr.bind fun body => .pure _

theorem object_succ : LeadsOn text base (OnePass.object text base (depth + 1)) := by
  rw [OnePass.object]
  refine respects_offset.bind fun start => (leadsOn_advance text base 1).bind fun _ => ?_
  refine (leadsOn_eat text base _).bind fun empty => ?_
  extract_lets close
  have hclose : ∀ ps, LeadsOn text base (close ps) := fun ps =>
    (leadsOn_node text base start).bind fun _ => .pure _
  split
  · exact hclose []
  · exact ih.properties.bind hclose

theorem properties_succ : LeadsOn text base (OnePass.properties text base (depth + 1)) := by
  rw [OnePass.properties]
  refine (leadsOn_skipBlanks text base).bind fun _ => respects_offset.bind fun start => ?_
  refine ih.key.bind fun key => (leadsOn_expect text base ":").bind fun _ => ?_
  refine ih.expr.bind fun value => (respects_spanFrom base start).bind fun span => ?_
  refine (leadsOn_eat text base _).bind fun closed => ?_
  split
  · exact .pure _
  · refine (leadsOn_expect text base ",").bind fun _ => ?_
    exact ih.properties.bind fun properties => .pure _

theorem key_succ : LeadsOn text base (OnePass.key text base (depth + 1)) := by
  rw [OnePass.key]
  refine (leadsOn_skipBlanks text base).bind fun _ => respects_column.bind fun column => ?_
  refine (respects_peek text).bind fun next => ?_
  split
  · refine ih.string.bind fun value => ?_
    cases value.literal? with
    | none => exact .fail _
    | some literal => exact .pure literal
  · refine (leadsOn_name? text base).bind fun name => ?_
    cases name with
    | none => exact .fail _
    | some name => exact .pure _

theorem succ : RulesLead text base (depth + 1) where
  expr := ih.expr_succ
  binary := ih.binary_succ
  chain := ih.chain_succ
  prefixed := ih.prefixed_succ
  postfixed := ih.postfixed_succ
  suffixes := ih.suffixes_succ
  list := ih.list_succ
  items := ih.items_succ
  primary := ih.primary_succ
  named := ih.named_succ
  string := ih.string_succ
  segments := ih.segments_succ
  parenthesized := ih.parenthesized_succ
  lambda := ih.lambda_succ
  lambdaScope := ih.lambdaScope_succ
  lambdaBody := ih.lambdaBody_succ
  arrayOrLoop := ih.arrayOrLoop_succ
  loop := ih.loop_succ
  loopScope := ih.loopScope_succ
  loopBody := ih.loopBody_succ
  object := ih.object_succ
  properties := ih.properties_succ
  key := ih.key_succ

end RulesLead

theorem rulesLead (depth : Nat) : RulesLead text base depth := by
  induction depth with
  | zero => exact .zero text base
  | succ depth ih => exact ih.succ

theorem leadsOn_whole (depth : Nat) : LeadsOn text base (whole text base depth) := by
  unfold whole
  split
  · exact .fail _
  · refine (rulesLead text base depth).expr.bind fun e => ?_
    refine (leadsOn_skipBlanks text base).bind fun _ => respects_offset.bind fun stop => ?_
    split
    · exact .pure e
    · exact (respects_rest text).bind fun _ => respects_column.bind fun _ => .fail _

end OnePass

end Preflight
