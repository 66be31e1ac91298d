import Preflight.Proofs.Parser.Nodes
import Preflight.Proofs.Parser.ParameterLists

/-! # Every rule reads again what it passed

There is one lemma for each rule. A rule that reads nested expressions passes a character before the
first of them, so the text that is left for them is shorter, and so is what is cut off from it. -/

namespace Preflight
set_option autoImplicit false

/-- Whether a text begins with a minus sign that belongs to a number. -/
def isNegative : List Char → Bool
  | '-' :: text => text.head?.any Char.isDigit
  | _ => false

/-- How many characters decide what a text begins with: those of its first name, or the sign and the
first digit of a number, or one. -/
def leadWord (text : List Char) : Nat :=
  if text.head?.any isNameStart then (text.takeWhile isNameChar).length
  else if isNegative text then 2 else 1

/-- The same with the blanks in front of it. -/
def lead (text : List Char) : Nat :=
  (text.takeWhile isBlank).length + leadWord (text.dropWhile isBlank)

theorem leadWord_pos (text : List Char) : 1 ≤ leadWord text := by
  unfold leadWord
  split
  next h =>
    cases text with
    | nil => cases h
    | cons c text =>
      rw [List.takeWhile_cons_of_pos (isNameChar_of_isNameStart h), List.length_cons]
      omega
  next => split <;> omega

theorem lead_pos (text : List Char) : 1 ≤ lead text :=
  Nat.le_trans (leadWord_pos _) (Nat.le_add_left _ _)

theorem lead_eq_leadWord {text : List Char} (h : text.head?.any isBlank = false) :
    lead text = leadWord text := by
  rw [lead, takeWhile_eq_nil h, dropWhile_eq_self h, List.length_nil, Nat.zero_add]

theorem lead_eq_add (text : List Char) :
    lead text = (text.takeWhile isBlank).length + lead (text.dropWhile isBlank) := by
  rw [lead_eq_leadWord (head?_dropWhile isBlank text), lead]

theorem lead_le_length {text t : List Char} (h : leadWord (text.dropWhile isBlank) ≤ t.length) :
    lead text ≤ (text.takeWhile isBlank ++ t).length := by
  rw [lead, List.length_append]
  exact Nat.add_le_add_left h _

theorem UnaryOp.at?_cons_eq_none_iff {c : Char} {text : List Char} :
    at? (c :: text) = none ↔ c ≠ '!' ∧ (c = '-' → text.head?.any Char.isDigit = true) := by
  unfold at?
  split
  next heq =>
    obtain ⟨rfl, -⟩ := List.cons.inj heq
    simp
  next heq =>
    obtain ⟨rfl, rfl⟩ := List.cons.inj heq
    simp
  next hnot hminus =>
    refine iff_of_true rfl ⟨?_, ?_⟩
    · rintro rfl
      exact hnot text rfl
    · rintro rfl
      exact absurd rfl (hminus text)

theorem UnaryOp.at?_cons_eq_some_iff {c : Char} {text : List Char} {op : UnaryOp} :
    at? (c :: text) = some op ↔
      op.token.toList = [c] ∧ (c = '-' → text.head?.any Char.isDigit = false) := by
  unfold at?
  split
  next heq =>
    obtain ⟨rfl, -⟩ := List.cons.inj heq
    cases op <;> simp [token]
  next heq =>
    obtain ⟨rfl, rfl⟩ := List.cons.inj heq
    cases op <;> simp [token]
  next hnot hminus =>
    refine iff_of_false (by rintro ⟨⟩) ?_
    rintro ⟨htoken, -⟩
    cases op with
    | not =>
      obtain rfl : '!' = c := (List.cons.inj htoken).1
      exact hnot text rfl
    | minus =>
      obtain rfl : '-' = c := (List.cons.inj htoken).1
      exact hminus text rfl

theorem leadWord_of_isNegative {text : List Char} (h : isNegative text = true) :
    leadWord text = 2 := by
  have hhead : text.head?.any isNameStart = false := by
    unfold isNegative at h
    split at h
    · rfl
    · cases h
  rw [leadWord, hhead, h]
  rfl

/-- What decides whether a sign stands there is seen in as much of the text. -/
theorem UnaryOp.at?_of_isPrefix {text cut : List Char} (h : cut <+: text)
    (hlead : leadWord text ≤ cut.length) (htext : at? text = none) : at? cut = none := by
  obtain ⟨rest, rfl⟩ := h
  cases cut with
  | nil => rfl
  | cons c cut =>
    rw [List.cons_append] at hlead htext
    obtain ⟨hnot, hminus⟩ := at?_cons_eq_none_iff.mp htext
    refine at?_cons_eq_none_iff.mpr ⟨hnot, ?_⟩
    rintro rfl
    have hdigit := hminus rfl
    have hnegative : isNegative ('-' :: (cut ++ rest)) = true := hdigit
    rw [leadWord_of_isNegative hnegative, List.length_cons] at hlead
    have hcut : cut ≠ [] := List.ne_nil_of_length_pos (Nat.le_of_succ_le_succ hlead)
    rwa [head?_of_isPrefix (List.prefix_append cut rest) hcut]

theorem UnaryOp.at?_eq_some_of_isPrefix {text cut : List Char} {op : UnaryOp} (h : cut <+: text)
    (hcut : cut ≠ []) (htext : at? text = some op) : at? cut = some op := by
  obtain ⟨c, cut, rfl⟩ := List.exists_cons_of_ne_nil hcut
  obtain ⟨rest, rfl⟩ := h
  rw [List.cons_append] at htext
  obtain ⟨htoken, hminus⟩ := at?_cons_eq_some_iff.mp htext
  refine at?_cons_eq_some_iff.mpr ⟨htoken, fun hc => ?_⟩
  exact head?_any_of_isPrefix (List.prefix_append cut rest) (hminus hc)

theorem UnaryOp.leadWord_of_at? {text : List Char} {op : UnaryOp} (h : at? text = some op) :
    leadWord text = 1 ∧ text ≠ [] := by
  cases text with
  | nil => cases h
  | cons c text =>
    obtain ⟨htoken, hminus⟩ := at?_cons_eq_some_iff.mp h
    have hname : isNameStart c = false := by
      cases op with
      | not =>
        obtain rfl : '!' = c := (List.cons.inj htoken).1
        rfl
      | minus =>
        obtain rfl : '-' = c := (List.cons.inj htoken).1
        rfl
    have hnegative : isNegative (c :: text) = false := by
      unfold isNegative
      split
      next heq =>
        obtain ⟨rfl, rfl⟩ := List.cons.inj heq
        exact hminus rfl
      next => rfl
    refine ⟨?_, List.cons_ne_nil c text⟩
    simp [leadWord, hname, hnegative]

/-! ## Strings -/

/-- Whether a run of literal text is followed by something that may follow it. -/
def Terminator.isProper : Terminator → Bool
  | .quote | .hole => true
  | .backslash | .nothing => false

namespace LiteralRun

theorem length_scan_le (text : List Char) : (scan text).length ≤ text.length := by
  fun_induction scan text
  case case4 c text run ih =>
    rw [List.length_cons, List.length_cons]
    exact Nat.add_le_add_right ih 2
  case case6 c text run _ _ _ _ ih =>
    rw [List.length_cons]
    exact Nat.add_le_add_right ih 1
  all_goals simp

theorem length_scan_pos {text : List Char} (h : text ≠ []) : 1 ≤ (scan text).length := by
  fun_cases scan text
  case case1 => exact absurd rfl h
  all_goals simp

/-- A run that ends where it may is the same if the text is cut off behind it. -/
theorem scan_of_isPrefix {text cut : List Char} (h : cut <+: text)
    (hproper : (scan text).terminator.isProper = true)
    (hlength : (scan text).length ≤ cut.length) : scan cut = scan text := by
  obtain ⟨rest, rfl⟩ := h
  fun_induction scan cut
  case case1 =>
    cases rest with
    | nil => rfl
    | cons c rest =>
      have hpos := length_scan_pos (List.cons_ne_nil c rest)
      exact absurd (Nat.le_trans hpos hlength) (by decide)
  case case3 =>
    cases rest with
    | nil => rfl
    | cons c rest => exact absurd (Nat.le_of_succ_le_succ hlength) (Nat.not_succ_le_zero _)
  case case4 c cut run ih =>
    rw [List.cons_append, List.cons_append, scan] at hproper hlength ⊢
    rw [← ih hproper (Nat.le_of_add_le_add_right hlength)]
  case case6 c cut hquote hlone hescape hhole run ih =>
    rw [List.cons_append] at hproper hlength ⊢
    have hbackslash : c ≠ '\\' := by
      rintro rfl
      cases cut with
      | nil => exact hlone rfl rfl
      | cons d cut => exact hescape d cut rfl rfl
    have hplain : scan (c :: (cut ++ rest)) =
        { scan (cut ++ rest) with
          text := c :: (scan (cut ++ rest)).text
          length := (scan (cut ++ rest)).length + 1 } := by
      rw [scan]
      · exact hquote
      · exact fun h => absurd h hbackslash
      · exact fun _ _ h => absurd h hbackslash
      · rintro tail rfl htail
        cases cut with
        | nil =>
          rw [List.nil_append] at htail
          rw [htail, List.nil_append, scan] at hlength
          exact absurd hlength (by decide)
        | cons d cut => exact hhole cut rfl (by rw [(List.cons.inj htail).1])
    rw [hplain] at hproper hlength ⊢
    rw [← ih hproper (Nat.le_of_add_le_add_right hlength)]
  all_goals rfl

end LiteralRun

namespace Parser

variable {α β γ δ : Type} {text : List Char} {bound reach room : Nat} {expr expr' : Parser Expr}

namespace Retraces

variable {p q : Parser α} {f g : α → Parser β} {key : α → γ} {key' : β → δ}
  {passed : α → List Char → Prop}

theorem anything (h : Retraces text bound p q key passed) :
    Retraces text bound p q key fun _ _ => True :=
  h.imp fun _ _ _ => trivial

end Retraces

/-- The rule for nested expressions, on texts of at most `reach` characters, up to spans and
indices. -/
def RetracesNested (reach room : Nat) (expr expr' : Parser Expr) : Prop :=
  ∀ text bound, text.length ≤ reach → bound ≤ room →
    Retraces text bound expr expr' Expr.erase fun _ t => lead text ≤ t.length

theorem RetracesNested.bind (inner : RetracesNested reach room expr expr')
    {f g : Expr → Parser β} {key : β → δ} {passed : β → List Char → Prop}
    (hreach : text.length ≤ reach) (hroom : bound ≤ room)
    (h : ∀ e e' t rest, e'.erase = e.erase → lead text ≤ t.length → rest.length < text.length →
      Retraces rest (bound - 1) (f e) (g e') key fun x u => passed x (t ++ u)) :
    Retraces text bound (expr >>= f) (expr' >>= g) key passed := by
  refine (inner text bound hreach hroom).bind ?_
  rintro e e' t rest rfl ht he
  have hpos := lead_pos (t ++ rest)
  refine (h e e' t rest he ht ?_).mono ?_
  · rw [List.length_append]
    omega
  · omega

/-! ## Strings and numbers -/

theorem retraces_segments (inner : RetracesNested reach room expr expr') {n m : Nat}
    (start start' : Nat) (hreach : text.length ≤ reach) (hroom : bound ≤ room) (hm : bound ≤ m) :
    Retraces text bound (segments expr start n) (segments expr' start' m)
      (fun r => (r.1, r.2.map Expr.erase)) fun _ t =>
        (LiteralRun.scan text).terminator.isProper = true ∧
          text.take (LiteralRun.scan text).length <+: t := by
  induction n generalizing text bound m with
  | zero => exact .throw
  | succ n ih =>
    have hscan := LiteralRun.length_scan_le text
    refine Retraces.turn hm (fun m hm => Retraces.rest_bind (Retraces.skip_bind ?_) ?_) ?_
    · have hdrop := (List.drop_sublist (LiteralRun.scan text).length text).length_le
      generalize LiteralRun.scan text = run at hdrop ⊢
      cases hend : run.terminator with
      | nothing => exact .throw
      | backslash => exact Retraces.still_bind still_offset still_offset fun _ _ _ _ => .throw
      | quote => exact .pure rfl ⟨rfl, List.prefix_append _ _⟩
      | hole =>
        refine inner.bind (by omega) (by omega) fun hole hole' t rest hhole _ hrest => ?_
        refine Retraces.expect_bind (by decide) fun rest' _ hrest' => ?_
        refine (ih (by omega) (by omega) (by omega)).bind ?_
        rintro ⟨segments, holes⟩ ⟨segments', holes'⟩ u rest'' - - hr
        obtain ⟨rfl, hholes⟩ := Prod.mk.inj hr
        refine .pure (congrArg (_, ·) ?_) ⟨rfl, List.prefix_append _ _⟩
        rw [List.map_cons, List.map_cons, hhole, hholes]
    · rintro cut - t ⟨hproper, ht⟩ hcut hfront d r run
      have hlength := (ht.trans hcut).length_le
      rw [List.length_take, Nat.min_eq_left hscan] at hlength
      rwa [LiteralRun.scan_of_isPrefix hfront hproper hlength]
    · rintro r ⟨hproper, hnil⟩
      rcases List.take_eq_nil_iff.mp (List.prefix_nil.mp hnil) with hzero | rfl
      · have hpos := @LiteralRun.length_scan_pos text ?_
        · omega
        · rintro rfl
          cases hproper
      · cases hproper

/-- The last step of most rules that build a node. -/
theorem retraces_node {f g : Node → Expr} (start start' : Nat)
    (h : ∀ n n', (g n').erase = (f n).erase) {passed : Expr → List Char → Prop}
    (hpassed : ∀ e, passed e []) :
    Retraces text bound (do return f (← node start)) (do return g (← node start')) Expr.erase
      passed :=
  .still_bind (still_node start) (still_node start') fun n n' _ _ => .pure (h n n') (hpassed _)

theorem retraces_string (inner : RetracesNested reach room expr expr') {n m : Nat}
    (hreach : text.length ≤ reach) (hroom : bound ≤ room + 1) (hm : bound ≤ m) :
    Retraces ('\'' :: text) bound (string n expr) (string m expr') Expr.erase
      fun _ t => 1 ≤ t.length := by
  refine .still_bind still_offset still_offset fun start start' _ _ => .skip_one_bind ?_
  refine (retraces_segments inner start start' hreach (by omega) (by omega)).bind ?_
  rintro ⟨segments, holes⟩ ⟨segments', holes'⟩ t rest - - h
  obtain ⟨rfl, hholes⟩ := Prod.mk.inj h
  refine retraces_node start start' (fun n n' => ?_) fun _ => Nat.le_add_left 1 _
  rw [Expr.erase_string, Expr.erase_string, hholes]

/-- Digits are passed up to the first character that is none. -/
theorem retraces_digits {f g : List Char → Parser β} {key : β → δ}
    (h : ∀ rest, Retraces rest bound (f text) (g text) key fun _ t => t = [])
    (hg : ∀ cut, cut.takeWhile Char.isDigit = text.takeWhile Char.isDigit → g cut = g text) :
    Retraces text bound (do
      let chars ← rest
      skip (chars.takeWhile Char.isDigit).length
      f chars) (do
      let chars ← rest
      skip (chars.takeWhile Char.isDigit).length
      g chars) key fun _ t => t = text.takeWhile Char.isDigit := by
  refine .rest_bind (.skip_bind (((h _).mono (Nat.sub_le _ _)).imp ?_)) ?_
  · rintro x u rfl
    rw [take_length_takeWhile, List.append_nil]
  · rintro cut x t rfl hcut hfront d r run
    have hdigits := takeWhile_of_isPrefix hfront hcut.length_le
    rwa [hg cut hdigits, hdigits]

theorem isNegative_eq_false {c : Char} (h : c ≠ '-') (text : List Char) :
    isNegative (c :: text) = false := by
  unfold isNegative
  split
  next heq => exact absurd (List.cons.inj heq).1 h
  next => rfl

theorem leadWord_mark {c : Char} (h : isNameStart c = false) (hminus : c ≠ '-')
    (text : List Char) : leadWord (c :: text) = 1 := by
  simp [leadWord, h, isNegative_eq_false hminus]

theorem leadWord_minus_le (text : List Char) :
    leadWord ('-' :: text) ≤ ('-' :: text.takeWhile Char.isDigit).length := by
  cases text with
  | nil => decide
  | cons c text =>
    cases hc : c.isDigit with
    | true => simp [leadWord, isNegative, hc, show isNameStart '-' = false from rfl]
    | false => simp [leadWord, isNegative, hc, show isNameStart '-' = false from rfl]

theorem retraces_integer {c : Char} (hc : isNumberStart c) :
    Retraces (c :: text) bound integer integer Expr.erase fun _ t =>
      leadWord (c :: text) ≤ t.length := by
  refine .still_bind still_offset still_offset fun start start' _ _ => .rest_bind ?_ ?_
  · dsimp only
    by_cases h : c = '-'
    · subst h
      simp only [List.head?_cons, beq_self_eq_true, if_true]
      refine .skip_one_bind ((retraces_digits (fun rest => ?_) fun cut hcut => ?_).imp ?_)
      · split
        · exact retraces_node start start' (fun n n' => by rfl) fun _ => rfl
        · exact .throw
      · simp only [hcut]
      · rintro e t rfl
        exact leadWord_minus_le text
    · have hdigit : c.isDigit := (Bool.or_eq_true_iff.mp hc).resolve_right (by simpa using h)
      have hhead : ((c :: text).head? == some '-') = false := by simpa using h
      simp only [hhead, Bool.false_eq_true, if_false]
      refine (retraces_digits (fun rest => ?_) fun cut hcut => ?_).imp ?_
      · split
        · exact retraces_node start start' (fun n n' => by rfl) fun _ => rfl
        · exact .throw
      · simp only [hcut]
      · rintro e t rfl
        rw [leadWord_mark (isNameStart_of_isDigit hdigit) h, List.takeWhile_cons_of_pos hdigit]
        exact Nat.le_add_left 1 _
  · rintro cut e t ht hcut hfront d r run
    have hlength := (leadWord_pos _).trans (ht.trans hcut.length_le)
    rwa [head?_of_isPrefix hfront (List.ne_nil_of_length_pos hlength)]

/-! ## Lists -/

theorem retraces_items (inner : RetracesNested reach room expr expr') (close : String)
    (hclose : 1 ≤ close.toList.length) {n m : Nat} (hreach : text.length ≤ reach)
    (hroom : bound ≤ room) (hm : bound ≤ m) :
    Retraces text bound (items expr close n) (items expr' close m) (List.map Expr.erase)
      fun _ t => lead text ≤ t.length := by
  induction n generalizing text bound m with
  | zero => exact .throw
  | succ n ih =>
    refine .turn hm (fun m hm => ?_) fun _ h => absurd (Nat.le_trans (lead_pos text) h) (by decide)
    refine inner.bind hreach hroom fun e e' t rest he ht hrest => ?_
    have hpassed (u : List Char) : lead text ≤ (t ++ u).length := by
      rw [List.length_append]
      exact Nat.le_add_right_of_le ht
    refine .eat_bind hclose (fun rest' _ _ => ?_) (fun _ => ?_)
    · refine .pure ?_ (hpassed _)
      rw [List.map_singleton, List.map_singleton, he]
    · have hblanks := (List.dropWhile_sublist isBlank (l := rest)).length_le
      refine .expect_bind (by decide) fun rest' _ hrest' => ?_
      refine (ih (by omega) (by omega) (by omega)).bind fun es es' u rest'' _ _ hes => ?_
      refine .pure ?_ (hpassed _)
      rw [List.map_cons, List.map_cons, he, hes]

theorem retraces_list (inner : RetracesNested reach room expr expr') (close : String)
    (hclose : 1 ≤ close.toList.length) {n m : Nat} (hreach : text.length ≤ reach)
    (hroom : bound ≤ room) (hm : bound ≤ m) :
    Retraces text bound (list n expr close) (list m expr' close) (List.map Expr.erase)
      fun _ t => 1 ≤ t.length ∧ (close.toList.isPrefixOf (text.dropWhile isBlank) = false →
        lead text ≤ t.length) := by
  refine .eat_bind hclose (fun rest hrest _ => .pure rfl ⟨?_, ?_⟩) (fun _ => ?_)
  · rw [List.length_append, List.append_nil]
    exact Nat.le_add_left_of_le hclose
  · intro h
    rw [hrest, Bool.eq_false_iff] at h
    exact absurd (List.isPrefixOf_iff_prefix.mpr (List.prefix_append _ _)) h
  · have hblanks := (List.dropWhile_sublist isBlank (l := text)).length_le
    refine (retraces_items inner close hclose (by omega) hroom hm).imp ?_
    intro es t ht
    have hlead : lead text ≤ (text.takeWhile isBlank ++ t).length := by
      rw [lead_eq_add, List.length_append]
      exact Nat.add_le_add_left ht _
    exact ⟨(lead_pos text).trans hlead, fun _ => hlead⟩

/-! ## Lambdas and parentheses -/

theorem retraces_lambda (inner : RetracesNested reach room expr expr') (start start' : Nat)
    {params params' : List NameAt} (hnames : params'.map NameAt.name = params.map NameAt.name)
    (hreach : text.length ≤ reach) (hroom : bound ≤ room) :
    Retraces text bound (lambda expr start params) (lambda expr' start' params') Expr.erase
      fun _ t => 1 ≤ t.length := by
  refine .still_bind (still_declareAll params) (still_declareAll params') ?_
  intro xs xs' hxs hxs'
  refine inner.bind hreach hroom fun body body' t rest hbody ht _ => ?_
  refine retraces_node start start' (fun n n' => ?_) fun _ => ?_
  · rw [Expr.erase_lambda, Expr.erase_lambda, hxs, hxs', hnames, hbody]
  · rw [List.append_nil]
    exact (lead_pos text).trans ht

theorem retraces_parenthesized (inner : RetracesNested reach room expr expr') {n m : Nat}
    (hreach : text.length ≤ reach) (hroom : bound ≤ room + 1) (hn : text.length < n)
    (hm : bound ≤ m) :
    Retraces ('(' :: text) bound (parenthesized n expr) (parenthesized m expr') Expr.erase
      fun _ t => 1 ≤ t.length := by
  refine .still_bind still_offset still_offset fun start start' _ _ => ?_
  refine (retraces_parameters? hn hm).bind ?_
  rintro params params' t rest hsplit ⟨hnone, hsome⟩ hkey
  cases params with
  | none =>
    obtain rfl := hnone rfl
    obtain rfl : params' = none := Option.map_eq_none_iff.mp hkey
    obtain rfl : '(' :: text = rest := hsplit
    refine .skip_one_bind (inner.bind hreach (by simp; omega) ?_)
    intro e e' t rest he ht hrest
    refine .expect_bind (by decide) fun rest' _ _ => .pure he ?_
    exact Nat.le_add_left 1 _
  | some params =>
    obtain ⟨params', rfl, hnames⟩ := Option.map_eq_some_iff.mp hkey
    have hpos := hsome nofun
    have hlength := congrArg List.length hsplit
    rw [List.length_cons, List.length_append] at hlength
    refine (retraces_lambda inner start start' hnames (by omega) (by omega)).imp ?_
    intro e u hu
    rw [List.length_append]
    exact Nat.le_add_left_of_le hu

/-! ## Loops and arrays -/

/-- The word stands there and no longer name does. -/
def standsAt (word : String) (text : List Char) : Bool :=
  word.toList.isPrefixOf text && !(text.drop word.length).head?.any isNameChar

theorem standsAt_of_isPrefix {word : String} {cut : List Char} (h : cut <+: text)
    (hcut : text.take word.length <+: cut) (htext : standsAt word text = true) :
    standsAt word cut = true := by
  obtain ⟨hword, hend⟩ := Bool.and_eq_true_iff.mp htext
  obtain ⟨rest, rfl⟩ := List.isPrefixOf_iff_prefix.mp hword
  rw [← String.length_toList, List.take_left] at hcut
  obtain ⟨tail, rfl⟩ := hcut
  rw [List.prefix_append_right_inj] at h
  rw [← String.length_toList, List.drop_left, Bool.not_eq_true'] at hend
  rw [standsAt, ← String.length_toList, List.drop_left, head?_any_of_isPrefix h hend,
    Bool.not_false, Bool.and_true]
  exact List.isPrefixOf_iff_prefix.mpr (List.prefix_append _ _)

/-- A longer name is seen in as much of the text. -/
theorem not_standsAt_of_isPrefix {word : String} {cut : List Char} (hword : isName word)
    (h : cut <+: text) (hcut : leadWord text ≤ cut.length) (htext : standsAt word text = false) :
    standsAt word cut = false := by
  refine Bool.eq_false_iff.mpr fun hcontra => ?_
  obtain ⟨hfront, hend⟩ := Bool.and_eq_true_iff.mp hcontra
  obtain ⟨tail, rfl⟩ := List.isPrefixOf_iff_prefix.mp hfront
  obtain ⟨rest, rfl⟩ := h
  rw [← String.length_toList, List.drop_left, Bool.not_eq_true'] at hend
  rw [standsAt, ← String.length_toList, List.append_assoc, List.drop_left, Bool.and_eq_false_iff,
    Bool.not_eq_false'] at htext
  have hmore := htext.resolve_left fun h =>
    Bool.false_ne_true (h.symm.trans (List.isPrefixOf_iff_prefix.mpr (List.prefix_append _ _)))
  obtain ⟨c, cs, hcons, hstart, hchars⟩ := exists_cons_of_isName hword
  have hlead : leadWord (word.toList ++ (tail ++ rest)) =
      ((word.toList ++ (tail ++ rest)).takeWhile isNameChar).length := by
    rw [leadWord, hcons, List.cons_append, List.head?_cons]
    exact if_pos hstart
  rw [List.append_assoc, hlead, List.takeWhile_append_of_pos hchars, List.length_append,
    List.length_append] at hcut
  cases tail with
  | nil =>
    cases rest with
    | nil => cases hmore
    | cons d rest =>
      have hd : isNameChar d := hmore
      rw [List.nil_append, List.takeWhile_cons_of_pos hd, List.length_cons, List.length_nil] at hcut
      omega
  | cons d tail => exact Bool.false_ne_true (hend.symm.trans hmore)

namespace Retraces

theorem keyword_bind {word : String} {f g : Bool → Parser β} {key : β → δ}
    {passed : β → List Char → Prop} (hword : isName word)
    (h : Retraces text bound (f (standsAt word text)) (g (standsAt word text)) key passed)
    (hpassed : ∀ b t, passed b t → if standsAt word text then text.take word.length <+: t
      else leadWord text ≤ t.length) :
    Retraces text bound (atKeyword word >>= f) (atKeyword word >>= g) key passed := by
  rw [atKeyword, bind_assoc, bind_assoc]
  refine .rest_bind h fun cut b t ht hcut hfront d r run => ?_
  have hsame : standsAt word cut = standsAt word text := by
    have hdecides := hpassed b t ht
    cases htext : standsAt word text with
    | true =>
      rw [if_pos htext] at hdecides
      exact standsAt_of_isPrefix hfront (hdecides.trans hcut) htext
    | false =>
      rw [if_neg (Bool.eq_false_iff.mp htext)] at hdecides
      exact not_standsAt_of_isPrefix hword hfront (hdecides.trans hcut.length_le) htext
  show (g (standsAt word cut)).run d = .ok r
  rw [hsame]
  exact run

end Retraces

theorem retraces_loopVariable : Retraces text bound loopVariable loopVariable NameAt.name
    fun _ _ => True := by
  refine .blanks_bind (.still_bind still_column still_column fun column column' _ _ => ?_)
  refine .name_bind (fun v v' rest _ hv _ _ _ => ?_) fun _ => .throw
  exact .pure hv trivial

theorem retraces_loopVariables : Retraces text bound loopVariables loopVariables
    (fun r => (r.1.name, r.2.map NameAt.name)) fun _ _ => True := by
  refine .eat_bind (by decide) (fun rest _ _ => ?_) fun _ => ?_
  · refine retraces_loopVariable.bind fun item item' t rest _ _ hitem => ?_
    refine .expect_bind (by decide) fun rest' _ _ => ?_
    refine retraces_loopVariable.bind fun index index' t rest _ _ hindex => ?_
    refine .expect_bind (by decide) fun rest' _ _ => .pure ?_ trivial
    exact congrArg₂ (fun x y => (x, some y)) hitem hindex
  · refine retraces_loopVariable.bind fun item item' t rest _ _ hitem => .pure ?_ trivial
    exact congrArg (·, none) hitem

theorem retraces_loop (inner : RetracesNested reach room expr expr') (start start' : Nat)
    (hreach : text.length ≤ reach) (hroom : bound ≤ room) :
    Retraces text bound (loop expr start) (loop expr' start') Expr.erase fun _ _ => True := by
  refine retraces_loopVariables.bind ?_
  rintro ⟨item, index⟩ ⟨item', index'⟩ t rest rfl - hnames
  obtain ⟨hitem : item'.name = item.name, hindex : index'.map NameAt.name = _⟩ :=
    Prod.mk.inj hnames
  have hblanks := (List.dropWhile_sublist isBlank (l := rest)).length_le
  rw [List.length_append] at hreach
  refine .blanks_bind (Retraces.imp (.keyword_bind rfl ?_ ?_) fun _ t
    (_ : standsAt "in" (rest.dropWhile isBlank) = true ∧
      (rest.dropWhile isBlank).take "in".length <+: t) => trivial)
  · cases hword : standsAt "in" (rest.dropWhile isBlank) with
    | false => exact .still_bind still_column still_column fun _ _ _ _ => .throw
    | true =>
      refine .skip_bind ?_
      have hdrop := (List.drop_sublist "in".length (rest.dropWhile isBlank)).length_le
      refine inner.bind (by omega) (by omega) fun collection collection' _ _ hcollection _ _ => ?_
      refine .expect_bind (by decide) fun rest' _ _ => ?_
      refine .still_bind (still_declare item) (still_declare item') fun x x' hx hx' => ?_
      refine .still_bind (still_declareOption index) (still_declareOption index') ?_
      intro y y' hy hy'
      refine inner.bind (by omega) (by omega) fun body body' _ _ hbody _ _ => ?_
      refine .expect_bind (by decide) fun rest' _ _ => ?_
      refine retraces_node start start' (fun n n' => ?_) fun _ => ?_
      · rw [Expr.erase_loop, Expr.erase_loop, hx, hx', hitem, hy, hy', hindex, hcollection, hbody]
      · exact ⟨rfl, List.prefix_append _ _⟩
  · rintro e u ⟨hword, hu⟩
    rwa [if_pos hword]

theorem retraces_arrayOrLoop (inner : RetracesNested reach room expr expr') {n m : Nat}
    (hreach : text.length ≤ reach) (hroom : bound ≤ room + 1) (hm : bound ≤ m) :
    Retraces ('[' :: text) bound (arrayOrLoop n expr) (arrayOrLoop m expr') Expr.erase
      fun _ t => 1 ≤ t.length := by
  refine .still_bind still_offset still_offset fun start start' _ _ => .skip_one_bind ?_
  have hblanks := (List.dropWhile_sublist isBlank (l := text)).length_le
  refine .blanks_bind (Retraces.imp (.keyword_bind rfl ?_ fun _ _ => id) fun _ t
    (_ : if standsAt "for" (text.dropWhile isBlank) then
      (text.dropWhile isBlank).take "for".length <+: t
    else leadWord (text.dropWhile isBlank) ≤ t.length) => Nat.le_add_left 1 _)
  cases hword : standsAt "for" (text.dropWhile isBlank) with
  | true =>
    have hdrop := (List.drop_sublist "for".length (text.dropWhile isBlank)).length_le
    refine .skip_bind ((retraces_loop inner start start' (by omega) (by omega)).imp ?_)
    intro e u _
    exact List.prefix_append _ _
  | false =>
    refine (retraces_list inner "]" (by decide) (by omega) (by omega) (by omega)).bind ?_
    rintro items items' t rest - ⟨hpos, hlead⟩ hitems
    refine retraces_node start start' (fun n n' => ?_) fun _ => ?_
    · rw [Expr.erase_array, Expr.erase_array, hitems]
    · rw [if_neg Bool.false_ne_true, List.append_nil]
      cases hclose : "]".toList.isPrefixOf (text.dropWhile isBlank) with
      | true =>
        obtain ⟨tail, htail⟩ := List.isPrefixOf_iff_prefix.mp hclose
        rw [← htail]
        exact (leadWord_mark rfl (by decide) tail).le.trans hpos
      | false =>
        have hhead := head?_dropWhile isBlank text
        have hlead := hlead (by rwa [dropWhile_eq_self hhead])
        rwa [lead_eq_leadWord hhead] at hlead

/-! ## Objects -/

theorem head?_beq_of_isPrefix {c : Char} {cut : List Char} (h : cut <+: text)
    (hcut : text.head? = some c → cut ≠ []) :
    (cut.head? == some c) = (text.head? == some c) := by
  cases cut with
  | nil =>
    have hne : text.head? ≠ some c := fun hc => hcut hc rfl
    rw [beq_eq_false_iff_ne.mpr hne]
    rfl
  | cons d cut => rw [head?_of_isPrefix h (List.cons_ne_nil d cut)]

theorem literal?_of_erase_eq {e e' : Expr} (h : e'.erase = e.erase) : e'.literal? = e.literal? := by
  have hmap (e : Expr) : e.erase.literal? = e.literal? := by
    rcases e with ⟨_, _ | ⟨_, _ | _⟩, _ | _⟩ | _ | _ | _ | _ | _ | _ | _ | _ | ⟨_, _ | _, _, _⟩ |
      _ | _ | _ | _ | _ <;> rfl
  rw [← hmap e', h, hmap e]

theorem retraces_key (inner : RetracesNested reach room expr expr') {n m : Nat}
    (hreach : text.length ≤ reach + 1) (hroom : bound ≤ room + 1) (hm : bound ≤ m) :
    Retraces text bound (key n expr) (key m expr') id fun _ _ => True := by
  have hblanks := (List.dropWhile_sublist isBlank (l := text)).length_le
  refine .blanks_bind (.still_bind still_column still_column fun column column' _ _ => ?_)
  generalize text.dropWhile isBlank = chars at hblanks ⊢
  refine Retraces.imp (.rest_bind ?_ ?_) fun _ t (_ : chars.head? = some '\'' → t ≠ []) => trivial
  · split
    next hquote =>
      cases chars with
      | nil => cases hquote
      | cons c chars =>
        obtain rfl : c = '\'' := by simpa using hquote
        rw [List.length_cons] at hblanks
        refine (retraces_string inner (by omega) hroom hm).bind fun e e' t rest _ ht he => ?_
        rw [literal?_of_erase_eq he]
        cases e.literal? with
        | none => exact .throw
        | some literal =>
          refine .pure rfl fun _ hnil => ?_
          rw [List.append_nil] at hnil
          rw [hnil] at ht
          cases ht
    next hquote =>
      refine .name_bind (fun v v' rest _ hv _ _ _ => .pure hv fun h => ?_) fun _ => .throw
      exact absurd (beq_iff_eq.mpr h) hquote
  · rintro cut e t ht hcut hfront d r run
    have hne : chars.head? = some '\'' → cut ≠ [] := by
      rintro h rfl
      exact ht h (List.prefix_nil.mp hcut)
    rwa [head?_beq_of_isPrefix hfront hne]

theorem retraces_properties (inner : RetracesNested reach room expr expr') {n m : Nat}
    (hreach : text.length ≤ reach) (hroom : bound ≤ room) (hm : bound ≤ m) :
    Retraces text bound (properties expr n) (properties expr' m) Expr.settings
      fun _ t => t ≠ [] := by
  induction n generalizing text bound m with
  | zero => exact .of_fails nofun
  | succ n ih =>
    refine .turn hm (fun m hm => ?_) fun _ h => h rfl
    have hblanks := (List.dropWhile_sublist isBlank (l := text)).length_le
    refine .start_bind fun start start' => ?_
    refine (retraces_key inner (by omega) (by omega) (by omega)).bind ?_
    intro key key' t rest hsplit _ hkey
    obtain rfl : key' = key := hkey
    have hlength := congrArg List.length hsplit
    rw [List.length_append] at hlength
    refine .expect_bind (by decide) fun rest' _ hrest' => ?_
    refine inner.bind (by omega) (by omega) fun value value' u rest'' hvalue _ hrest'' => ?_
    refine .still_bind (still_spanFrom start) (still_spanFrom start') fun span span' _ _ => ?_
    refine .eat_bind (by decide) (fun _ _ _ => .pure ?_ ?_) fun _ => ?_
    · simp [Expr.settings, hvalue]
    · simp
    · have hblanks := (List.dropWhile_sublist isBlank (l := rest'')).length_le
      refine .expect_bind (by decide) fun rest₁ _ hrest₁ => ?_
      refine (ih (by omega) (by omega) (by omega)).bind fun ps ps' _ _ _ _ hps => .pure ?_ ?_
      · unfold Expr.settings at hps ⊢
        rw [List.map_cons, List.map_cons, hvalue, hps]
      · simp

theorem retraces_object (inner : RetracesNested reach room expr expr') {n m : Nat}
    (hreach : text.length ≤ reach) (hroom : bound ≤ room + 1) (hm : bound ≤ m) :
    Retraces ('{' :: text) bound (object n expr) (object m expr') Expr.erase
      fun _ t => 1 ≤ t.length := by
  refine .still_bind still_offset still_offset fun start start' _ _ => .skip_one_bind ?_
  have hblanks := (List.dropWhile_sublist isBlank (l := text)).length_le
  refine .eat_bind (by decide) (fun rest _ _ => ?_) fun _ => ?_
  · exact retraces_node (f := (.object · [])) (g := (.object · [])) start start' (fun _ _ => rfl)
      fun _ => Nat.le_add_left 1 _
  · refine (retraces_properties inner (by omega) (by omega) (by omega)).bind ?_
    rintro ps ps' t rest - - hps
    refine retraces_node start start' (fun n n' => ?_) fun _ => Nat.le_add_left 1 _
    rw [Expr.erase_object, Expr.erase_object, hps]

/-! ## Names and operands -/

theorem retraces_named (inner : RetracesNested reach room expr expr') {n m : Nat}
    (start start' : Nat) {v v' : NameAt} (hv : v'.name = v.name)
    (hreach : text.length ≤ reach + 1) (hroom : bound ≤ room + 1) (hm : bound ≤ m) :
    Retraces text bound (named n expr start v) (named m expr' start' v') Expr.erase
      fun _ _ => True := by
  unfold named
  rw [hv]
  have hblanks := (List.dropWhile_sublist isBlank (l := text)).length_le
  split
  · exact retraces_node start start' (fun n n' => by rfl) fun _ => trivial
  · exact retraces_node start start' (fun n n' => by rfl) fun _ => trivial
  · exact retraces_node start start' (fun n n' => by rfl) fun _ => trivial
  · refine .eat_bind (by decide) (fun rest _ _ => ?_) fun _ => ?_
    · refine (retraces_lambda inner start start' ?_ (by omega) (by omega)).anything
      rw [List.map_singleton, List.map_singleton, hv]
    refine .eat_bind (by decide) (fun rest _ _ => ?_) fun _ => ?_
    · refine (retraces_list inner ")" (by decide) (by omega) (by omega) (by omega)).bind ?_
      intro args args' t rest' _ _ hargs
      refine retraces_node start start' (fun n n' => ?_) fun _ => trivial
      rw [Expr.erase_call, Expr.erase_call, hargs]
    · refine .still_bind still_freshIndex still_freshIndex fun i i' _ _ => .pure ?_ trivial
      rfl

theorem leadWord_name {x : String} (hx : isName x) {rest : List Char}
    (hrest : rest.head?.any isNameChar = false) :
    leadWord (x.toList ++ rest) = x.toList.length := by
  obtain ⟨c, cs, hcons, hstart, hchars⟩ := exists_cons_of_isName hx
  have hhead : (x.toList ++ rest).head?.any isNameStart = true := by rwa [hcons]
  rw [leadWord, if_pos hhead, takeWhile_append_of_head? hchars hrest]

theorem retraces_word (inner : RetracesNested reach room expr expr') {n m : Nat} {c : Char}
    (start start' : Nat) (hblank : (c :: text).head?.any isBlank = false)
    (hreach : text.length ≤ reach) (hroom : bound ≤ room + 1) (hm : bound ≤ m) :
    Retraces (c :: text) bound (word n expr start c text) (word m expr' start' c text) Expr.erase
      fun _ t => leadWord (c :: text) ≤ t.length := by
  unfold word
  split
  next hc => exact retraces_integer hc
  next hc =>
    refine .name_bind (fun v v' rest hv hkey hrest hstop hless => ?_) fun _ => .throw
    rw [List.length_cons] at hless
    refine (retraces_named inner start start' hkey (by omega) (by omega) (by omega)).imp ?_
    intro e t _
    rw [dropWhile_eq_self hblank] at hrest
    rw [hrest, leadWord_name hv hstop, List.length_append, List.length_append]
    omega

/-- The text is only cited in a message. -/
theorem run_word_of_ok {n start : Nat} {c : Char} {text text' : List Char} {d : Cursor}
    {r : Expr × Cursor} (run : (word n expr start c text).run d = .ok r) :
    (word n expr start c text').run d = .ok r := by
  unfold word at run ⊢
  split at run
  next hc => rwa [if_pos hc]
  next hc =>
    rw [if_neg hc]
    obtain ⟨v, d', run₁, run⟩ := run_bind_eq_ok_iff.mp run
    refine run_bind_eq_ok_iff.mpr ⟨v, d', run₁, ?_⟩
    cases v with
    | none => cases run
    | some v => exact run

theorem run_operandAt_of_ok {n start : Nat} {c : Char} {text text' : List Char} {d : Cursor}
    {r : Expr × Cursor} (run : (operandAt n expr start (c :: text)).run d = .ok r) :
    (operandAt n expr start (c :: text')).run d = .ok r := by
  by_cases hc : c ∈ ['\'', '(', '[', '{']
  · fin_cases hc <;> exact run
  · rw [operandAt_eq_word hc] at run ⊢
    exact run_word_of_ok run

theorem retraces_operandAt (inner : RetracesNested reach room expr expr') {n m : Nat}
    (start start' : Nat) (hblank : text.head?.any isBlank = false)
    (hreach : text.length ≤ reach + 1) (hroom : bound ≤ room + 1) (hn : text.length ≤ n)
    (hm : bound ≤ m) :
    Retraces text bound (operandAt n expr start text) (operandAt m expr' start' text) Expr.erase
      fun _ t => leadWord text ≤ t.length := by
  cases text with
  | nil => exact .throw
  | cons c chars =>
    rw [List.length_cons] at hreach hn
    have mark {p q : Parser Expr} (hname : isNameStart c = false) (hminus : c ≠ '-')
        (h : Retraces (c :: chars) bound p q Expr.erase fun _ t => 1 ≤ t.length) :
        Retraces (c :: chars) bound p q Expr.erase fun _ t => leadWord (c :: chars) ≤ t.length := by
      rwa [leadWord_mark hname hminus]
    by_cases hc : c ∈ ['\'', '(', '[', '{']
    · fin_cases hc
      · exact mark rfl (by decide) (retraces_string inner (by omega) hroom hm)
      · exact mark rfl (by decide) (retraces_parenthesized inner (by omega) hroom (by omega) hm)
      · exact mark rfl (by decide) (retraces_arrayOrLoop inner (by omega) hroom hm)
      · exact mark rfl (by decide) (retraces_object inner (by omega) hroom hm)
    · rw [operandAt_eq_word hc, operandAt_eq_word hc]
      exact retraces_word inner start start' hblank (by omega) hroom hm

theorem retraces_primary (inner : RetracesNested reach room expr expr') {n m : Nat}
    (hreach : text.length ≤ reach + 1) (hroom : bound ≤ room + 1) (hn : text.length ≤ n)
    (hm : bound ≤ m) :
    Retraces text bound (primary n expr) (primary m expr') Expr.erase
      fun _ t => lead text ≤ t.length := by
  rw [primary_eq, primary_eq]
  have hblanks := (List.dropWhile_sublist isBlank (l := text)).length_le
  refine .start_bind fun start start' => Retraces.imp (.rest_bind ?_ ?_) fun _ _ => lead_le_length
  · exact retraces_operandAt inner start start' (head?_dropWhile isBlank text) (by omega) hroom
      (by omega) hm
  · rintro cut e t ht hcut hfront d r run
    have hpos := (leadWord_pos _).trans (ht.trans hcut.length_le)
    obtain ⟨c, cut, rfl⟩ := List.exists_cons_of_length_pos hpos
    obtain ⟨tail, hchars⟩ := hfront
    rw [← hchars] at run
    -- the first character decides
    exact run_operandAt_of_ok run

end Parser

end Preflight
