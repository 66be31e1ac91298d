import Preflight.Proofs.Binding
import Preflight.Proofs.OnePass.Follows

/-! # Tokens and names

Blanks, tokens and names are passed together, indices are drawn together, and what the reading binds
on the way is what the binder binds later. -/

namespace Preflight
set_option autoImplicit false

/-- Where the span of a name lies once the text stands at `p`. -/
def NameAt.place (p : Position) (v : NameAt) : NameAt := { v with span := v.span.shift p }

namespace OnePass

/-- How the tree of a reading differs from the one that the parser returns. -/
def Setting.placing (f : Setting) : Relabelling :=
  { span := Span.shift f.base, index := (f.first + ·) }

/-- A step that leaves the binder alone, and passes as many characters as the result tells. -/
def Token {α β : Type} (key : α → β) (least : α → Nat) (c : Cursor) (s : Session) (a : α) (b : β)
    (c' : Cursor) (s' : Session) : Prop :=
  b = key a ∧ Silent (least a) c s c' s'

/-- A step that binds nothing. -/
def Quiet {α β : Type} (key : α → β) (c : Cursor) (s : Session) (a : α) (b : β) (c' : Cursor)
    (s' : Session) : Prop :=
  b = key a ∧ Passed quietly 0 c s c' s'

variable {f : Setting} {c c' : Cursor} {s s' : Session}

theorem Follows.of_ok {α β : Type} {p : Parser α} {q : Reader β} {a : α} {b : β}
    {post : α → β → Cursor → Session → Prop} (hp : p.run c = .ok (a, c'))
    (hq : q.outcome s = some (.ok b, s')) (along : f.Along c' s') (h : post a b c' s') :
    Follows f p q c s post := by
  unfold Follows
  rw [hp]
  exact ⟨b, s', hq, along, h⟩

/-! ## Where the cursor stands -/

section

variable {α β : Type} {post : α → β → Cursor → Session → Prop} {q : Reader β} {p : Parser α}

theorem follows_offset_bind {k : Nat → Parser α} {l : Nat → Reader β} (along : f.Along c s)
    (h : Follows f (k c.offset) (l c.offset) c s post) :
    Follows f (Parser.offset >>= k) (offset >>= l) c s post := by
  apply Follows.left rfl
  apply Follows.right rfl
  rwa [along.offset]

theorem follows_column_bind {k : Nat → Parser α} {l : Nat → Reader β} (along : f.Along c s)
    (h : Follows f (k (c.offset + 1)) (l (c.offset + 1)) c s post) :
    Follows f (Parser.column >>= k) (column >>= l) c s post := by
  apply Follows.left rfl
  apply Follows.right rfl
  rwa [along.offset]

theorem follows_rest_left {k : List Char → Parser α} (h : Follows f (k c.rest) q c s post) :
    Follows f (Parser.rest >>= k) q c s post :=
  .left rfl h

theorem follows_rest_right {l : List Char → Reader β} (along : f.Along c s)
    (h : Follows f p (l c.rest) c s post) : Follows f p (rest f.text >>= l) c s post :=
  .right along.outcome_rest h

theorem follows_peek_right {l : Option Char → Reader β} (along : f.Along c s)
    (h : Follows f p (l (c.rest.head?.map leadByte)) c s post) :
    Follows f p (peek f.text >>= l) c s post :=
  .right along.outcome_peek h

end

/-! ## Tokens -/

theorem follows_skip (along : f.Along c s) (n : Nat) {k : Nat}
    (hk : utf8Length (c.rest.take n) = k) (hn : n ≤ c.rest.length) :
    Follows f (Parser.skip n) (advance k) c s fun _ _ c' s' =>
      c'.rest = c.rest.drop n ∧ Silent n c s c' s' := by
  subst hk
  apply Follows.of_ok rfl rfl (along.advance n)
  have hlength : (c.advance n).rest.length + n ≤ c.rest.length := by
    show (c.rest.drop n).length + n ≤ _
    rw [List.length_drop]
    omega
  exact ⟨rfl, hlength, rfl⟩

theorem follows_skip_one (along : f.Along c s) {d : Char} {text : List Char}
    (hrest : c.rest = d :: text) (hd : d.toNat < 128) :
    Follows f (Parser.skip 1) (advance 1) c s fun _ _ c' s' =>
      c'.rest = text ∧ Silent 1 c s c' s' := by
  have hk : utf8Length (c.rest.take 1) = 1 := by
    rw [hrest]
    exact utf8Length_of_single (p := fun x => decide (x.toNat < 128)) (fun _ => of_decide_eq_true)
      fun x hx => decide_eq_true (List.mem_singleton.mp hx ▸ hd)
  have hn : 1 ≤ c.rest.length := by simp [hrest]
  apply (follows_skip along 1 hk hn).imp
  rintro - - c' s' - ⟨hrest', passed⟩
  exact ⟨by rw [hrest', hrest]; rfl, passed⟩

theorem follows_skip_token (along : f.Along c s) {token : String}
    (htoken : token.toList <+: c.rest) :
    Follows f (Parser.skip token.length) (advance token.utf8ByteSize) c s fun _ _ c' s' =>
      c'.rest = c.rest.drop token.length ∧ Silent token.length c s c' s' := by
  apply follows_skip along
  · rw [← String.length_toList, ← List.prefix_iff_eq_take.mp htoken, utf8Length_toList]
  · rw [← String.length_toList]
    exact htoken.length_le

theorem advance_zero (c : Cursor) : c.advance 0 = c := by simp [Cursor.advance]

theorem advance_advance (c : Cursor) (m n : Nat) :
    (c.advance m).advance n = c.advance (m + n) := by
  have hoffset : utf8Length (c.rest.take m) + utf8Length ((c.rest.drop m).take n) =
      utf8Length (c.rest.take (m + n)) := by
    rw [List.take_add, utf8Length_append]
  simp only [Cursor.advance, List.drop_drop, ← hoffset, Nat.add_assoc]

theorem outcome_skipWhile (text : List Char) (p : Char → Bool) (s : Session) :
    (skipWhile text p).outcome s = match (utf8Bytes text)[s.offset]? with
      | none => some (.ok (), s)
      | some b =>
        if p b then (skipWhile text p).outcome (Setting.Along.moved s 1) else some (.ok (), s) := by
  unfold skipWhile
  rw [Reader.outcome_offset_bind, Reader.outcome_offset_bind]
  cases hbyte : (utf8Bytes text)[s.offset]? with
  | none =>
    rw [List.drop_eq_nil_of_le (List.getElem?_eq_none_iff.mp hbyte)]
    rfl
  | some b =>
    obtain ⟨hlt, hb⟩ := List.getElem?_eq_some_iff.mp hbyte
    rw [List.drop_eq_getElem_cons hlt, hb, passWhile]
    dsimp only
    split
    next => rw [Reader.outcome_bind_of_ok (Setting.Along.outcome_advance s 1)]; rfl
    next => rfl

/-- Byte by byte, as many are passed as there are characters of their kind. -/
theorem exists_skipWhile {p : Char → Bool} (hp : Single p) (along : f.Along c s) :
    ∃ s', (skipWhile f.text p).outcome s = some (.ok (), s') ∧
      f.Along (c.advance (c.rest.takeWhile p).length) s' ∧ s'.binder = s.binder := by
  induction hrest : c.rest generalizing c s with
  | nil =>
    refine ⟨s, ?_, by rwa [List.takeWhile_nil, List.length_nil, advance_zero], rfl⟩
    rw [outcome_skipWhile, along.getElem?_offset, hrest]
    rfl
  | cons d text ih =>
    rw [outcome_skipWhile, along.getElem?_offset, hrest, List.head?_cons, Option.map_some]
    dsimp only
    rw [hp.leadByte]
    cases hd : p d with
    | false =>
      refine ⟨s, rfl, ?_, rfl⟩
      rwa [List.takeWhile_cons_of_neg (by simp [hd]), List.length_nil, advance_zero]
    | true =>
      have hone : utf8Length (c.rest.take 1) = 1 := by
        rw [hrest]
        exact hp.utf8Size hd
      have hmoved := along.advance 1
      rw [hone] at hmoved
      have htext : (c.advance 1).rest = text := by
        show c.rest.drop 1 = text
        rw [hrest, List.drop_one, List.tail_cons]
      obtain ⟨s', run, along', hbinder⟩ := ih hmoved htext
      refine ⟨s', run, ?_, hbinder⟩
      rwa [List.takeWhile_cons_of_pos hd, List.length_cons, Nat.add_comm, ← advance_advance]

theorem follows_skipBlanks (along : f.Along c s) :
    Follows f Parser.skipBlanks (skipBlanks f.text) c s fun _ _ c' s' =>
      c' = c.advance (c.rest.takeWhile isBlank).length ∧ Silent 0 c s c' s' := by
  obtain ⟨s', run, along', hbinder⟩ := exists_skipWhile single_isBlank along
  apply Follows.of_ok rfl run along'
  refine ⟨rfl, ?_, hbinder⟩
  show (c.rest.drop _).length + 0 ≤ _
  rw [Parser.drop_length_takeWhile]
  exact (List.dropWhile_suffix isBlank).length_le

theorem follows_eat (along : f.Along c s) {token : String} (htoken : 1 ≤ token.length) :
    Follows f (Parser.eat token) (eat f.text token) c s
      (Token id (fun found => if found then 1 else 0) c s) := by
  apply (follows_skipBlanks along).bind
  rintro - - c₁ s₁ along₁ ⟨-, blanks⟩
  apply follows_rest_left
  apply follows_rest_right along₁
  split
  next found =>
    apply (follows_skip_token along₁ (List.isPrefixOf_iff_prefix.mp found)).bind
    rintro - - c₂ s₂ along₂ ⟨-, passed⟩
    exact .pure along₂ ⟨rfl, (passed.after blanks).weaken (by simp only [if_true]; omega)⟩
  next => exact .pure along₁ ⟨rfl, blanks⟩

theorem follows_expect (along : f.Along c s) {token : String}
    (htoken : 1 ≤ token.length) :
    Follows f (Parser.expect token) (expect f.text token) c s
      (Token (fun _ => ()) (fun _ => 1) c s) := by
  apply (follows_eat along htoken).bind
  rintro _ found c₁ s₁ along₁ ⟨rfl, passed⟩
  cases found with
  | true => exact .pure along₁ ⟨rfl, passed⟩
  | false => exact follows_column_bind along₁ (.fail along₁)

theorem follows_atKeyword (along : f.Along c s) (word : String) :
    Follows f (Parser.atKeyword word) (atKeyword f.text word) c s fun found found' c' s' =>
      found' = found ∧ c' = c ∧ s' = s ∧ (found = true → word.toList <+: c.rest) := by
  apply follows_rest_left
  apply follows_rest_right along
  apply Follows.right (rfl : offset.outcome s = some (.ok s.offset, s))
  cases hfound : word.toList.isPrefixOf c.rest with
  | false =>
    have hbyte : (byteAt f.text (s.offset + word.utf8ByteSize)).outcome s =
      some (.ok (utf8Bytes f.text)[s.offset + word.utf8ByteSize]?, s) := rfl
    apply Follows.right hbyte
    exact .pure along ⟨rfl, rfl, rfl, nofun⟩
  | true =>
    have hstands := List.isPrefixOf_iff_prefix.mp hfound
    have hsplit : c.rest = word.toList ++ c.rest.drop word.length := by
      rw [← String.length_toList]
      exact (List.prefix_iff_eq_append.mp hstands).symm
    have hbyte := along.outcome_byteAt hsplit
    rw [utf8Length_toList] at hbyte
    apply Follows.right hbyte
    rw [single_isNameChar.any_map]
    exact .pure along ⟨rfl, rfl, rfl, fun _ => hstands⟩

theorem follows_spanFrom (along : f.Along c s) (start : Nat) :
    Follows f (Parser.spanFrom start) (spanFrom f.base start) c s
      (Token (Span.shift f.base) (fun _ => 0) c s) :=
  follows_offset_bind along (.pure along ⟨rfl, .refl⟩)

theorem follows_freshIndex (along : f.Along c s) :
    Follows f Parser.freshIndex freshIndex c s (Quiet (f.first + ·) c s) := by
  have along' : f.Along { c with next := c.next + 1 }
      { s with binder := { s.binder with next := s.binder.next + 1 } } := by
    have hnext := congrArg (· + 1) along.next
    exact ⟨⟨⟨along.boundary, along.closed, along.trail⟩, along.kept⟩, along.stands,
      along.offset, hnext⟩
  exact .of_ok rfl rfl along' ⟨along.next, Nat.le_refl _, rfl, rfl, rfl⟩

theorem follows_node (along : f.Along c s) (start : Nat) :
    Follows f (Parser.node start) (node f.base start) c s
      (Quiet (Node.map f.placing) c s) := by
  apply (follows_spanFrom along start).bind
  rintro span _ c₁ s₁ along₁ ⟨rfl, passed₁⟩
  apply (follows_freshIndex along₁).bind
  rintro index _ c₂ s₂ along₂ ⟨rfl, passed₂⟩
  exact .pure along₂ ⟨rfl, passed₂.after passed₁⟩

theorem isNameChar_of_isNameStart {d : Char} (h : isNameStart d = true) : isNameChar d = true := by
  rcases Bool.or_eq_true_iff.mp h with halpha | hunderscore
  · simp [isNameChar, Char.isAlphanum, halpha]
  · simp [isNameChar, hunderscore]

/-- The bytes of a name are passed, and the name is cut out of the text. -/
theorem exists_passName (along : f.Along c s) (head : c.rest.head?.any isNameStart = true) :
    ∃ s', (skipWhile f.text isNameChar).outcome (Setting.Along.moved s 1) = some (.ok (), s') ∧
      (sliceFrom f.text c.offset).outcome s' = some (.ok (c.rest.takeWhile isNameChar), s') ∧
      f.Along (c.advance (c.rest.takeWhile isNameChar).length) s' ∧ s'.binder = s.binder := by
  cases hrest : c.rest with
  | nil => simp [hrest] at head
  | cons d text =>
    have hstart : isNameStart d = true := by simpa [hrest] using head
    have hone : utf8Length (c.rest.take 1) = 1 := by
      rw [hrest]
      exact single_isNameStart.utf8Size hstart
    have along₁ := along.advance 1
    rw [hone] at along₁
    obtain ⟨s₂, run, along₂, hbinder⟩ := exists_skipWhile single_isNameChar along₁
    have htext : (c.advance 1).rest = text := by
      show c.rest.drop 1 = text
      rw [hrest, List.drop_one, List.tail_cons]
    rw [htext, advance_advance, Nat.add_comm, ← List.length_cons (a := d),
      ← List.takeWhile_cons_of_pos (isNameChar_of_isNameStart hstart), ← hrest] at along₂
    obtain ⟨before, hbefore, hoffset⟩ := along.stands
    have hslice : (sliceFrom f.text c.offset).outcome s₂ =
        some (.ok (c.rest.takeWhile isNameChar), s₂) := by
      rw [hoffset]
      apply along₂.outcome_sliceFrom
      have hsplit := (Cursor.Passes.advance c (c.rest.takeWhile isNameChar).length).rest
      rw [Parser.take_length_takeWhile] at hsplit
      rw [← hsplit, hbefore]
    rw [← hrest]
    exact ⟨s₂, run, hslice, along₂, hbinder⟩

/-- Where there is no name, only blanks are passed. -/
theorem follows_name?_or_blanks (along : f.Along c s) :
    Follows f Parser.name? (name? f.text f.base) c s fun v v' c' s' =>
      Token (Option.map (NameAt.place f.base)) (fun v => v.toList.length) c s v v' c' s' ∧
        (v = none → c' = c.advance (c.rest.takeWhile isBlank).length) := by
  apply (follows_skipBlanks along).bind
  rintro - - c₁ s₁ along₁ ⟨hc₁, blanks⟩
  apply follows_offset_bind along₁
  apply follows_rest_left
  apply follows_peek_right along₁
  rw [single_isNameStart.any_map]
  split
  next head =>
    obtain ⟨s₂, run, hslice, along₂, hbinder⟩ := exists_passName along₁ head
    apply Follows.right (Setting.Along.outcome_advance s₁ 1)
    apply Follows.right run
    apply Follows.right hslice
    apply Follows.left rfl
    apply (follows_spanFrom along₂ c₁.offset).bind
    rintro span _ c₃ s₃ along₃ ⟨rfl, here⟩
    have hname : 1 ≤ (c₁.rest.takeWhile isNameChar).length := by
      obtain ⟨d, cs, hcons, -⟩ := exists_cons_of_isName (isName_takeWhile head)
      rw [String.toList_ofList] at hcons
      simp [hcons]
    have passed : Silent 1 c₁ s₁ (c₁.advance (c₁.rest.takeWhile isNameChar).length) s₂ := by
      refine ⟨?_, hbinder⟩
      show (c₁.rest.drop _).length + 1 ≤ _
      have hle := (List.takeWhile_prefix isNameChar (l := c₁.rest)).length_le
      rw [List.length_drop]
      omega
    exact .pure along₃ ⟨⟨rfl, ((here.after passed).after blanks).weaken (Nat.le_refl _)⟩, nofun⟩
  next => exact .pure along₁ ⟨⟨rfl, blanks⟩, fun _ => hc₁⟩

theorem follows_name? (along : f.Along c s) :
    Follows f Parser.name? (name? f.text f.base) c s
      (Token (Option.map (NameAt.place f.base)) (fun v => v.toList.length) c s) :=
  (follows_name?_or_blanks along).imp fun _ _ _ _ _ h => h.1

/-! ## Names in sight -/

/-- The variables got symbols of their own and came into sight. -/
structure BinderState.Brought (vars : List LocalVar) (b b' : BinderState) : Prop where
  globals : b'.globals = b.globals
  locals : b.locals <:+ b'.locals
  symbols : (Binder.declareLocals vars b.names).run b.symbols = .ok (b'.names, b'.symbols)

namespace BinderState.Brought

variable {b b' b'' : BinderState} {vars vars' : List LocalVar}

theorem nil : Brought [] b b := ⟨rfl, List.suffix_refl _, rfl⟩

theorem append (h : Brought vars b b') (h' : Brought vars' b' b'') :
    Brought (vars ++ vars') b b'' := by
  refine ⟨h'.globals.trans h.globals, h.locals.trans h'.locals, ?_⟩
  rw [Binder.declareLocals, List.foldlM_append, StateT.run_bind]
  have hfirst := h.symbols
  rw [Binder.declareLocals] at hfirst
  rw [hfirst]
  exact h'.symbols

/-- What is bound then is bound with the variables in sight. -/
theorem run_bind {m : Names → Binder Unit} (h : Brought vars b b') (h' : Effect m b' b'') :
    (Binder.declareLocals vars b.names >>= m).run b.symbols = .ok ((), b''.symbols) := by
  rw [StateT.run_bind, h.symbols]
  exact h'.symbols

end BinderState.Brought

/-- The variables came into sight while the cursor stood still. -/
structure Declared (vars : List LocalVar) (c : Cursor) (s : Session) (c' : Cursor) (s' : Session) :
    Prop extends BinderState.Brought vars s.binder s'.binder where
  rest : c'.rest = c.rest

/-- Whatever else comes into sight, the local names are as they have to be. -/
def Growing (kept : Names → Prop) : Prop := ∀ p names, kept names → kept (p :: names)

theorem growing_suffix (locals : Names) : Growing (locals <:+ ·) :=
  fun p _ h => h.trans (List.suffix_cons p _)

theorem Reader.outcome_lift {α : Type} {a : α} {binder : BinderState}
    {step : BinderState → Except BindError (α × BinderState)}
    (h : step s.binder = .ok (a, binder)) :
    (lift step).outcome s = some (.ok a, { s with binder }) := by
  have hget : (get : Reader Session).outcome s = some (.ok s, s) := rfl
  unfold lift
  rw [Reader.outcome_bind_of_ok hget, h]
  rfl

/-- A variable gets a symbol of its own, under an index of its own. -/
theorem exists_declareLocal {b : BinderState} (h : b.Closed) (v : NameAt) :
    ∃ symbols, BinderState.declareLocal v b = .ok ({ node := ⟨v.span, b.next⟩, name := v.name },
        { b with
          symbols
          locals := (v.name, b.symbols.nextId) :: b.locals
          next := b.next + 1 }) ∧
      (b.symbols.declare v.name .localVar).bind b.next b.symbols.nextId = .ok symbols ∧
      ∀ p ∈ (v.name, b.symbols.nextId) :: b.names, ∃ x, symbols.get? p.2 = some x := by
  have fresh : (b.symbols.declare v.name .localVar).get? b.symbols.nextId =
      some ⟨b.symbols.nextId, v.name, .localVar⟩ := by
    rw [SymbolTable.get?_declare, if_pos rfl]
  obtain ⟨symbols, hbind⟩ := SymbolTable.exists_bind fresh b.next
  have hextends := (b.symbols.extends_declare v.name .localVar).trans
    (SymbolTable.extends_of_bind hbind)
  refine ⟨symbols, ?_, hbind, ?_⟩
  · unfold BinderState.declareLocal
    dsimp only
    rw [hbind]
    rfl
  · rw [List.forall_mem_cons]
    constructor
    · exact ⟨_, (SymbolTable.get?_congr (SymbolTable.declared_of_bind hbind) _).trans fresh⟩
    · intro p hp
      obtain ⟨x, hx⟩ := h p hp
      exact ⟨x, hextends.symbols _ x hx⟩

theorem exists_brought {b : BinderState} (h : b.Closed) (v : NameAt) :
    ∃ b', b.declareLocal v = .ok (⟨⟨v.span, b.next⟩, v.name⟩, b') ∧ b'.Closed ∧
      b'.next = b.next + 1 ∧ (∃ p, b'.locals = p :: b.locals) ∧
      BinderState.Brought [⟨⟨v.span, b.next⟩, v.name⟩] b b' := by
  obtain ⟨symbols, hstep, hbind, hclosed⟩ := exists_declareLocal h v
  refine ⟨_, hstep, hclosed, rfl, ⟨_, rfl⟩, rfl, List.suffix_cons _ _, ?_⟩
  rw [Binder.declareLocals, List.foldlM_cons]
  simp only [List.foldlM_nil, bind_pure]
  exact Binder.run_declareLocal_of_bind hbind _

theorem follows_declare (growing : Growing f.kept) (along : f.Along c s) (v : NameAt) :
    Follows f (Parser.declare v) (declareLocal (v.place f.base)) c s fun x y c' s' =>
      y = x.map f.placing ∧ Declared [y] c s c' s' := by
  obtain ⟨b', hstep, hclosed, hnext, ⟨p, hlocals⟩, brought⟩ :=
    exists_brought along.closed (v.place f.base)
  have hkept : f.kept b'.locals := by
    rw [hlocals]
    exact growing p _ along.kept
  apply Follows.of_ok rfl (Reader.outcome_lift hstep)
  · refine ⟨⟨⟨along.boundary, hclosed, along.trail⟩, hkept⟩, along.stands, along.offset, ?_⟩
    exact hnext.trans (congrArg (· + 1) along.next)
  · refine ⟨?_, brought, rfl⟩
    rw [along.next]
    rfl

theorem Declared.nil : Declared [] c s c s := ⟨.nil, rfl⟩

theorem Declared.append {vars vars' : List LocalVar} {c'' : Cursor} {s'' : Session}
    (h : Declared vars c s c' s') (h' : Declared vars' c' s' c'' s'') :
    Declared (vars ++ vars') c s c'' s'' :=
  ⟨h.toBrought.append h'.toBrought, h'.rest.trans h.rest⟩

theorem follows_declares (growing : Growing f.kept) (along : f.Along c s) (vs : List NameAt) :
    Follows f (vs.mapM Parser.declare) ((vs.map (NameAt.place f.base)).mapM declareLocal) c s
      fun xs ys c' s' => ys = xs.map (LocalVar.map f.placing) ∧ Declared ys c s c' s' := by
  induction vs generalizing c s with
  | nil => exact .pure along ⟨rfl, .nil⟩
  | cons v vs ih =>
    rw [List.mapM_cons, List.map_cons, List.mapM_cons]
    apply (follows_declare growing along v).bind
    rintro x _ c₁ s₁ along₁ ⟨rfl, declared₁⟩
    apply (ih along₁).bind
    rintro xs _ c₂ s₂ along₂ ⟨rfl, declared₂⟩
    exact .pure along₂ ⟨rfl, declared₁.append declared₂⟩

theorem follows_declare? (growing : Growing f.kept) (along : f.Along c s) (v : Option NameAt) :
    Follows f (v.mapM Parser.declare) ((v.map (NameAt.place f.base)).mapM declareLocal) c s
      fun x y c' s' => y = x.map (LocalVar.map f.placing) ∧ Declared y.toList c s c' s' := by
  cases v with
  | none => exact .pure along ⟨rfl, .nil⟩
  | some v =>
    rw [Option.map_some, Option.mapM_some, Option.mapM_some, map_eq_pure_bind, map_eq_pure_bind]
    apply (follows_declare growing along v).bind
    rintro x _ c₁ s₁ along₁ ⟨rfl, declared₁⟩
    exact .pure along₁ ⟨rfl, declared₁⟩

/-! ## References -/

theorem BinderState.resolve_eq (b : BinderState) (x : String) : b.resolve x = b.names.lookup x := by
  rw [resolve, names, List.lookup_append]
  cases b.locals.lookup x <;> rfl

/-- A name in sight is bound, and any other is left alone. -/
theorem exists_reference (along : f.Along c s) (span : Span) (index : Nat) (x : String) :
    ∃ s', (reference index x).outcome s = some (.ok (), s') ∧ f.Along c s' ∧
      Passed (fun names => Binder.reference names ⟨span, index⟩ x) 0 c s c s' := by
  have hget : (get : Reader Session).outcome s = some (.ok s, s) := rfl
  unfold reference Binder.reference
  rw [Reader.outcome_bind_of_ok hget, BinderState.resolve_eq]
  cases hx : s.binder.names.lookup x with
  | none =>
    refine ⟨s, rfl, along, Nat.le_refl _, rfl, rfl, ?_⟩
    rw [hx]
    rfl
  | some id =>
    obtain ⟨symbol, hsymbol⟩ := along.closed _ (Names.mem_of_lookup hx)
    obtain ⟨symbols, hbind⟩ := SymbolTable.exists_bind hsymbol index
    have hstep :
        (do return ((), ← s.binder.bind index id) : Except BindError (Unit × BinderState)) =
          .ok ((), { s.binder with symbols }) := by
      unfold BinderState.bind
      rw [hbind]
      rfl
    refine ⟨_, Reader.outcome_lift hstep, ?_, Nat.le_refl _, rfl, rfl, ?_⟩
    · have hclosed : ∀ p ∈ s.binder.names, ∃ x, symbols.get? p.2 = some x := by
        intro p hp
        rw [SymbolTable.get?_congr (SymbolTable.declared_of_bind hbind)]
        exact along.closed p hp
      exact ⟨⟨⟨along.boundary, hclosed, along.trail⟩, along.kept⟩, along.stands, along.offset,
        along.next⟩
    · rw [hx]
      exact Binder.run_bind hbind

end OnePass

end Preflight
