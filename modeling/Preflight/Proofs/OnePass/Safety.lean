import Preflight.Proofs.Layout.OwnText
import Preflight.Proofs.OnePass.Expressions
import Preflight.Proofs.OnePass.Trail

/-! # Readings come to an end

Whatever the text is, a reading in one pass gives an answer, which is what the parser makes of the
text. Its cursor stays in the text, its slices never miss, and whatever it bound, the local names in
sight are afterwards what they were. -/

namespace Preflight
set_option autoImplicit false

namespace OnePass

variable {α β : Type} {text : List Char} {base : Position} {b : BinderState} {s s' : Session}
  {kept : Names → Prop} {depth : Nat}

/-! ## Comparisons -/

/-- A sound session can be compared with the parser from where it stands. -/
theorem Session.Sound.exists_along (h : s.Sound text) (base : Position) (kept : Names → Prop)
    (hkept : kept s.binder.locals) (hdepth : nesting text ≤ depth) :
    ∃ c, (Setting.mk text base s.binder.next kept).Along c s ∧
      16 * (c.rest.length + 1) ≤ depth := by
  obtain ⟨taken, rest, htext, hoffset⟩ := h.boundary
  refine ⟨{ rest, offset := s.offset }, ⟨⟨h, hkept⟩, ⟨taken, htext, hoffset⟩, rfl, rfl⟩, ?_⟩
  rw [nesting, htext, List.length_append] at hdepth
  show 16 * (rest.length + 1) ≤ depth
  omega

/-! ## Endings -/

/-- A fault of the text, not of the reading. -/
def Failure.Reported : Failure → Prop
  | .parse _ | .noDigits => True
  | .binding _ | .slice _ => False

/-- The reading gives an answer, in a sound session and with the local names as they have to be. -/
def Ends (text : List Char) (kept : Names → Prop) (q : Reader α) (s : Session)
    (post : α → Session → Prop) : Prop :=
  ∃ answer s', q.outcome s = some (answer, s') ∧ s'.Sound text ∧ kept s'.binder.locals ∧
    match answer with
    | .ok a => post a s'
    | .error cause => cause.Reported

namespace Ends

variable {post : α → Session → Prop} {post' : β → Session → Prop} {q : Reader α}

theorem pure {a : α} (h : s.Sound text) (hkept : kept s.binder.locals) (ha : post a s) :
    Ends text kept (pure a) s post :=
  ⟨.ok a, s, rfl, h, hkept, ha⟩

theorem bind {l : α → Reader β} (h : Ends text kept q s post)
    (hl : ∀ a s', s'.Sound text → kept s'.binder.locals → post a s' →
      Ends text kept (l a) s' post') : Ends text kept (q >>= l) s post' := by
  obtain ⟨answer, s', hq, sound, hkept, hanswer⟩ := h
  cases answer with
  | ok a =>
    obtain ⟨answer, s'', hrest, hends⟩ := hl a s' sound hkept hanswer
    exact ⟨answer, s'', (Reader.outcome_bind_of_ok hq).trans hrest, hends⟩
  | error cause => exact ⟨.error cause, s', Reader.outcome_bind_of_error hq, sound, hkept, hanswer⟩

/-- What was true before the bodies of a lambda or a loop is true afterwards. -/
theorem scope (h : Ends text (s.binder.locals <:+ ·) q s fun _ _ => True) :
    Ends text (· = s.binder.locals) (Bind.bind (m := StateT Session Option) (ExceptT.run q)
      fun result => leave s.binder.locals.length result) s fun _ _ => True := by
  obtain ⟨answer, s', hq, sound, hsuffix, hanswer⟩ := h
  refine ⟨answer, s'.restored s.binder.locals, outcome_scope hq hsuffix,
    sound.restored hsuffix, rfl, ?_⟩
  cases answer with
  | ok a => trivial
  | error cause => exact hanswer

end Ends

theorem Follows.ends {f : Setting} {c : Cursor} {p : Parser α} {q : Reader β}
    {post : α → β → Cursor → Session → Prop} {post' : β → Session → Prop}
    (h : Follows f p q c s post)
    (hpost : ∀ a b c' s', f.Along c' s' → post a b c' s' → post' b s') :
    Ends f.text f.kept q s post' := by
  unfold Follows at h
  split at h
  next =>
    obtain ⟨b, s', hq, along', hb⟩ := h
    exact ⟨.ok b, s', hq, along'.toSound, along'.kept, hpost _ b _ s' along' hb⟩
  next cause _ =>
    obtain ⟨s', hq, settled⟩ := h
    exact ⟨.error (.parse cause), s', hq, settled.toSound, settled.kept, trivial⟩

/-! ## Bodies -/

theorem ends_expr (base : Position) (h : s.Sound text) (hkept : kept s.binder.locals)
    (hdepth : nesting text ≤ depth + 3) :
    Ends text kept (expr text base depth) s fun _ _ => True := by
  obtain ⟨c, along, hleft⟩ := h.exists_along base kept hkept hdepth
  have hleft : 16 * c.rest.length + 13 ≤ depth := by omega
  have follows := below_expr c.rest.length _ c s along (Nat.lt_succ_self _) hleft
  exact follows.ends fun _ _ _ _ _ _ => trivial

theorem ends_declareLocal (growing : Growing kept) (h : s.Sound text)
    (hkept : kept s.binder.locals) (v : NameAt) :
    Ends text kept (declareLocal v) s fun _ _ => True := by
  obtain ⟨symbols, hstep, -, hclosed⟩ := exists_declareLocal h.closed v
  refine ⟨.ok _, _, Reader.outcome_lift hstep, ⟨h.boundary, hclosed, h.trail⟩, ?_, trivial⟩
  exact growing _ _ hkept

theorem ends_declareLocals (growing : Growing kept) (h : s.Sound text)
    (hkept : kept s.binder.locals) (vs : List NameAt) :
    Ends text kept (vs.mapM declareLocal) s fun _ _ => True := by
  induction vs generalizing s with
  | nil => exact .pure h hkept trivial
  | cons v vs ih =>
    rw [List.mapM_cons]
    apply (ends_declareLocal growing h hkept v).bind
    intro x s₁ sound₁ hkept₁ _
    apply (ih sound₁ hkept₁).bind
    intro xs s₂ sound₂ hkept₂ _
    exact .pure sound₂ hkept₂ trivial

theorem ends_lambdaScope (base : Position) (h : s.Sound text) (hdepth : nesting text ≤ depth)
    (params : List NameAt) :
    Ends text (· = s.binder.locals) (lambdaScope text base depth s.binder.locals.length params) s
      fun _ _ => True := by
  have growing := growing_suffix s.binder.locals
  obtain ⟨depth, rfl⟩ : ∃ l, depth = l + 2 :=
    Nat.exists_eq_add_of_le' (by unfold nesting at hdepth; omega)
  rw [lambdaScope, lambdaBody]
  apply Ends.scope
  apply (ends_declareLocals growing h (List.suffix_refl _) params).bind
  intro vars s₁ sound₁ hkept₁ _
  apply (ends_expr base sound₁ hkept₁ (by omega)).bind
  intro body s₂ sound₂ hkept₂ _
  exact .pure sound₂ hkept₂ trivial

theorem ends_loopScope (base : Position) (h : s.Sound text) (hdepth : nesting text ≤ depth)
    (item : NameAt) (index : Option NameAt) :
    Ends text (· = s.binder.locals) (loopScope text base depth s.binder.locals.length item index) s
      fun _ _ => True := by
  have growing := growing_suffix s.binder.locals
  obtain ⟨depth, rfl⟩ : ∃ l, depth = l + 2 :=
    Nat.exists_eq_add_of_le' (by unfold nesting at hdepth; omega)
  rw [loopScope, loopBody]
  apply Ends.scope
  apply (ends_declareLocal growing h (List.suffix_refl _) item).bind
  intro item s₁ sound₁ hkept₁ _
  have hindex : Ends text (s.binder.locals <:+ ·) (index.mapM declareLocal) s₁
      fun _ _ => True := by
    cases index with
    | none => exact .pure sound₁ hkept₁ trivial
    | some v =>
      rw [Option.mapM_some, map_eq_pure_bind]
      apply (ends_declareLocal growing sound₁ hkept₁ v).bind
      intro x s₂ sound₂ hkept₂ _
      exact .pure sound₂ hkept₂ trivial
  apply hindex.bind
  intro index s₂ sound₂ hkept₂ _
  apply (ends_expr base sound₂ hkept₂ (by omega)).bind
  intro body s₃ sound₃ hkept₃ _
  exact .pure sound₃ hkept₃ trivial

/-! ## Primaries -/

/-- Without digits after it, a minus sign is no number. -/
theorem ends_integer_noDigits {f : Setting} {c : Cursor} {tail : List Char} (along : f.Along c s)
    (hrest : c.rest = '-' :: tail) (htail : tail.head?.any Char.isDigit = false) :
    Ends f.text f.kept (integer f.text f.base) s fun _ _ => False := by
  obtain ⟨before, hbefore, hoffset⟩ := along.stands
  have along₁ := along.advance 1
  have hone : utf8Length (c.rest.take 1) = 1 := by
    rw [hrest]
    rfl
  rw [hone] at along₁
  obtain ⟨s₂, run, along₂, -⟩ := exists_skipWhile single_isDigit along₁
  have hrest₁ : (c.advance 1).rest = tail := by
    show c.rest.drop 1 = tail
    rw [hrest]
    rfl
  have hnone : tail.takeWhile Char.isDigit = [] := takeWhile_eq_nil htail
  rw [hrest₁, hnone, List.length_nil, advance_zero] at along₂
  have hslice : (sliceFrom f.text s.offset).outcome s₂ = some (.ok ['-'], s₂) := by
    rw [along.offset, hoffset]
    apply along₂.outcome_sliceFrom
    rw [hrest₁, hbefore, hrest]
    rfl
  have hlead : leadByte '-' = '-' := leadByte_eq_self (by decide)
  have hdash : (integer f.text f.base).outcome s = some (.error .noDigits, s₂) := by
    unfold integer
    rw [Reader.outcome_offset_bind, Reader.outcome_bind_of_ok along.outcome_peek, hrest,
      List.head?_cons, Option.map_some, hlead]
    dsimp only
    rw [if_pos BEq.rfl, Reader.outcome_bind_of_ok (Setting.Along.outcome_advance s 1),
      Reader.outcome_bind_of_ok run, Reader.outcome_bind_of_ok hslice]
    rfl
  exact ⟨_, s₂, hdash, along₂.toSound, along₂.kept, trivial⟩

theorem ends_primary (base : Position) (h : s.Sound text) (hdepth : nesting text ≤ depth) :
    Ends text (· = s.binder.locals) (primary text base depth) s fun _ s' =>
      s.offset < s'.offset := by
  obtain ⟨c, along, hleft⟩ := h.exists_along base (· = s.binder.locals) rfl hdepth
  by_cases hminus : ∀ tail, c.rest.dropWhile isBlank = '-' :: tail →
      tail.head?.any Char.isDigit = true
  · have hleft : 16 * c.rest.length + 2 ≤ depth := by omega
    have follows := follows_primary (below_expr c.rest.length) along (Nat.le_succ _)
      (Nat.le_refl _) hleft hminus
    apply follows.ends
    intro e e' c' s' along' tree
    rw [along.offset, along'.offset]
    exact along.stands.offset_lt along'.stands tree.2.length
  · push Not at hminus
    obtain ⟨tail, hrest, htail⟩ := hminus
    obtain ⟨s₁, run, along₁, -⟩ := exists_skipWhile single_isBlank along
    have hrest₁ : (c.advance (c.rest.takeWhile isBlank).length).rest = '-' :: tail := by
      rw [← hrest]
      exact Parser.drop_length_takeWhile isBlank c.rest
    have hlead : leadByte '-' = '-' := leadByte_eq_self (by decide)
    obtain ⟨depth, rfl⟩ : ∃ l, depth = l + 1 := Nat.exists_eq_add_one.mpr (by omega)
    have hstep : (primary text base (depth + 1)).outcome s = (integer text base).outcome s₁ := by
      rw [primary, skipBlanks, Reader.outcome_bind_of_ok run, Reader.outcome_offset_bind,
        Reader.outcome_bind_of_ok along₁.outcome_peek, hrest₁, List.head?_cons, Option.map_some,
        hlead]
      rfl
    obtain ⟨answer, s', hq, sound, hkept, hanswer⟩ :=
      ends_integer_noDigits along₁ hrest₁ (Bool.eq_false_iff.mpr htail)
    refine ⟨answer, s', hstep.trans hq, sound, hkept, ?_⟩
    cases answer with
    | ok e => exact hanswer.elim
    | error cause => exact hanswer

/-! ## Parameter lists -/

/-- Where there are no parameters, the cursor is back and the binder is untouched. -/
theorem ends_parameters? (base : Position) (h : s.Sound text) (hdepth : nesting text ≤ depth)
    (hopen : (utf8Bytes text)[s.offset]? = some '(') :
    Ends text (· = s.binder.locals) (parameters? text base depth) s fun params s' =>
      s'.binder = s.binder ∧
        if params.isSome then s.offset < s'.offset else s'.offset = s.offset := by
  obtain ⟨c, along, hleft⟩ := h.exists_along base (· = s.binder.locals) rfl hdepth
  have hhead : c.rest.head? = some '(' := by
    have hlead := along.getElem?_offset
    rw [← beq_iff_eq, ← map_leadByte_beq _ (by decide), ← hlead, hopen, beq_iff_eq]
  obtain ⟨tail, hrest⟩ := List.head?_eq_some_iff.mp hhead
  apply (follows_parameters? along hrest (Nat.le_refl _) (by omega)).ends
  rintro params _ c' s' along' ⟨rfl, passed, hback⟩
  refine ⟨passed.binder, ?_⟩
  rw [along.offset, along'.offset]
  cases params with
  | none => rw [hback rfl]; rfl
  | some params => exact along.stands.offset_lt along'.stands passed.length

/-! ## Whole texts -/

/-- What a reading in one pass answers, as the parser answers for the text on its own. -/
def answer (base : Position) (first : Nat) : Except SyntaxError Reading → Except Failure Expr
  | .ok reading => .ok (reading.expr.place base first)
  | .error cause => .error (.parse cause)

theorem parse_eq_run (text : String) :
    Reading.parse text = ((do
      if '\n' ∈ text.toList then
        throw .severalLines
      Parser.whole text.toList.length : Parser Expr).run { rest := text.toList }).map
        fun result => { expr := result.1, indices := result.2.next } := by
  unfold Reading.parse
  by_cases hline : '\n' ∈ text.toList
  · simp only [hline]
    rfl
  · simp only [hline]
    rfl

/-- A whole text, read from its start. -/
theorem follows_read (text : String) (base : Position) (h : b.Closed)
    (hdepth : nesting text.toList ≤ depth) :
    Follows ⟨text.toList, base, b.next, (· = b.locals)⟩ (do
        if '\n' ∈ text.toList then
          throw .severalLines
        Parser.whole text.toList.length) (whole text.toList base depth) { rest := text.toList }
      { binder := b } (Tree ⟨text.toList, base, b.next, (· = b.locals)⟩ 1 { rest := text.toList }
        { binder := b }) := by
  have hsound : Session.Sound text.toList { binder := b } :=
    ⟨⟨[], text.toList, rfl, rfl⟩, h, nofun⟩
  have along : (Setting.mk text.toList base b.next (· = b.locals)).Along { rest := text.toList }
      { binder := b } := ⟨⟨hsound, rfl⟩, ⟨[], rfl, rfl⟩, rfl, rfl⟩
  unfold nesting at hdepth
  have hdepth : 16 * text.toList.length + 13 ≤ depth := by omega
  exact follows_whole along rfl hdepth

theorem exists_read (text : String) (base : Position) (h : b.Closed)
    (hdepth : nesting text.toList ≤ depth) :
    ∃ s, read depth text base b = some (answer base b.next (Reading.parse text), s) ∧
      s.Sound text.toList ∧ s.binder.locals = b.locals := by
  have follows := follows_read text base h hdepth
  unfold Follows at follows
  rw [parse_eq_run]
  split at follows
  next e c' hrun =>
    obtain ⟨_, s, hq, along', rfl, -⟩ := follows
    rw [hrun]
    exact ⟨s, hq, along'.toSound, along'.kept⟩
  next cause hrun =>
    obtain ⟨s, hq, settled⟩ := follows
    rw [hrun]
    exact ⟨s, hq, settled.toSound, settled.kept⟩

/-- Binding while the text is read leaves the binder as binding the finished tree does. The tree
takes as many indices as the parser counts. -/
theorem exists_read_bound {text : String} {reading : Reading} (base : Position) (h : b.Closed)
    (hdepth : nesting text.toList ≤ depth) (hparse : Reading.parse text = .ok reading) :
    ∃ s, read depth text base b = some (.ok (reading.expr.place base b.next), s) ∧
      s.binder.next = b.next + reading.indices ∧
      Effect (fun names => Binder.expr names (reading.expr.place base b.next)) b s.binder := by
  have follows := follows_read text base h hdepth
  unfold Follows at follows
  rw [parse_eq_run] at hparse
  split at follows
  next e c' hrun =>
    obtain ⟨_, s, hq, along', rfl, passed⟩ := follows
    rw [hrun] at hparse
    cases hparse
    exact ⟨s, hq, along'.next, passed.effect⟩
  next cause hrun =>
    rw [hrun] at hparse
    cases hparse

/-! ## Reachable states -/

/-- What the binder holds while a program is put together. -/
inductive BinderState.Reachable : BinderState → Prop where
  | initial : Reachable {}
  | declareGlobal {b : BinderState} (name : String) (kind : SymbolKind) :
    Reachable b → b.globals.lookup name = none → Reachable (b.declareGlobal name kind)
  | declareLocal {b b' : BinderState} {x : LocalVar} (v : NameAt) :
    Reachable b → b.declareLocal v = .ok (x, b') → Reachable b'
  | truncate {b : BinderState} (height : Nat) : Reachable b → Reachable (b.truncate height)
  | freshIndex {b : BinderState} : Reachable b → Reachable { b with next := b.next + 1 }
  | read {b : BinderState} {depth : Nat} {answer : Except Failure Expr} {s : Session}
    (text : String) (base : Position) : Reachable b → nesting text.toList ≤ depth →
    read depth text base b = some (answer, s) → Reachable s.binder

theorem BinderState.Reachable.closed (h : b.Reachable) : b.Closed := by
  induction h with
  | initial => exact nofun
  | @declareGlobal b name kind _ _ ih =>
    have hextends := b.symbols.extends_declare name kind
    rintro p hp
    rcases List.mem_append.mp hp with hp | hp
    · obtain ⟨x, hx⟩ := ih p (List.mem_append_left _ hp)
      exact ⟨x, hextends.symbols _ x hx⟩
    rcases List.mem_cons.mp hp with rfl | hp
    · refine ⟨⟨b.symbols.nextId, name, kind⟩, ?_⟩
      show (b.symbols.declare name kind).get? b.symbols.nextId = _
      rw [SymbolTable.get?_declare, if_pos rfl]
    · obtain ⟨x, hx⟩ := ih p (List.mem_append_right _ hp)
      exact ⟨x, hextends.symbols _ x hx⟩
  | declareLocal v _ hstep ih =>
    obtain ⟨symbols, hstep', -, hclosed⟩ := exists_declareLocal ih v
    cases hstep'.symm.trans hstep
    exact hclosed
  | truncate height _ ih =>
    intro p hp
    rcases List.mem_append.mp hp with hp | hp
    · exact ih p (List.mem_append_left _ (List.mem_of_mem_drop hp))
    · exact ih p (List.mem_append_right _ hp)
  | freshIndex _ ih => exact ih
  | read text base _ hdepth hread ih =>
    obtain ⟨s, hread', sound, -⟩ := exists_read text base ih hdepth
    cases hread'.symm.trans hread
    exact sound.closed

/-! ## Totality and safety -/

/-- In every reachable state, a text is read to the end, with the answer that the parser gives and
in a sound session, and no call nests deeper than there are 16 for each character and 16 more. The
moves of the cursor lead to where it stands, and only parameter lists that gave up moved it back. So
are read its primaries, which pass some of the text, its parameter lists, which put everything back
where they give up, and the bodies of its lambdas and loops, which leave the local names as they
were. -/
theorem read_total_and_safe (text : String) (base : Position) (h : b.Reachable)
    (hdepth : nesting text.toList ≤ depth) :
    (∃ s, read depth text base b = some (answer base b.next (Reading.parse text), s) ∧
      s.Sound text.toList ∧ s.binder.locals = b.locals ∧
      Led text.toList base { binder := b } s.trail s.offset) ∧
    ∀ s : Session, s.Sound text.toList →
      Ends text.toList (· = s.binder.locals) (primary text.toList base depth) s
        (fun _ s' => s.offset < s'.offset) ∧
      ((utf8Bytes text.toList)[s.offset]? = some '(' →
        Ends text.toList (· = s.binder.locals) (parameters? text.toList base depth) s
          fun params s' => s'.binder = s.binder ∧
            if params.isSome then s.offset < s'.offset else s'.offset = s.offset) ∧
      (∀ params, Ends text.toList (· = s.binder.locals)
        (lambdaScope text.toList base depth s.binder.locals.length params) s fun _ _ => True) ∧
      ∀ item index, Ends text.toList (· = s.binder.locals)
        (loopScope text.toList base depth s.binder.locals.length item index) s fun _ _ => True := by
  refine ⟨?_, fun s sound => ⟨?_, ?_, ?_, ?_⟩⟩
  · obtain ⟨s, hread, sound, hlocals⟩ := exists_read text base h.closed hdepth
    exact ⟨s, hread, sound, hlocals, leadsOn_whole text.toList base depth _ _ s hread⟩
  · exact ends_primary base sound hdepth
  · exact ends_parameters? base sound hdepth
  · exact ends_lambdaScope base sound hdepth
  · exact ends_loopScope base sound hdepth

/-- A lambda with a loop inside it, and a character of three bytes. -/
def arrow : String := "(x) => '→$\x7b[for v in x: v]\x7d'"

theorem read_total_and_safe_arrow : ∃ b : BinderState, b.Reachable ∧ b.locals.map (·.1) = ["x"] ∧
    (∃ reading s, Reading.parse arrow = .ok reading ∧
      read 480 arrow {} b = some (.ok (reading.expr.place {} b.next), s) ∧ s.Sound arrow.toList ∧
      s.binder.locals = b.locals ∧ Led arrow.toList {} { binder := b } s.trail s.offset) ∧
    Session.Sound arrow.toList { binder := b } ∧ (utf8Bytes arrow.toList)[0]? = some '(' ∧
    Ends arrow.toList (· = b.locals) (parameters? arrow.toList {} 480) { binder := b }
      fun params s' => s'.binder = b ∧ if params.isSome then 0 < s'.offset else s'.offset = 0 := by
  have empty : BinderState.Reachable {} := .initial
  obtain ⟨symbols, hstep, -, -⟩ := exists_declareLocal empty.closed ⟨"x", {}⟩
  have reachable := empty.declareLocal _ hstep
  have accepted : Reading.readsWith arrow (fun _ => true) = true := by decide +kernel
  obtain ⟨reading, hreading, -⟩ := Reading.readsWith_iff.mp accepted
  have hdepth : nesting arrow.toList ≤ 480 := by decide +kernel
  obtain ⟨⟨s, hread, sound, hlocals, led⟩, inside⟩ := read_total_and_safe arrow {} reachable hdepth
  rw [hreading] at hread
  have start : Session.Sound arrow.toList { binder := _ } :=
    ⟨⟨[], arrow.toList, rfl, rfl⟩, reachable.closed, nofun⟩
  have hopen : (utf8Bytes arrow.toList)[0]? = some '(' := by decide +kernel
  obtain ⟨-, hparameters, -, -⟩ := inside _ start
  exact ⟨_, reachable, rfl, ⟨reading, s, hreading, hread, sound, hlocals, led⟩, start, hopen,
    hparameters hopen⟩

end OnePass

end Preflight
