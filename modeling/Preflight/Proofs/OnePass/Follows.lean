import Preflight.Proofs.OnePass.Bytes

/-! # Following the parser

A reading in one pass does what the parser does: where the parser succeeds, it succeeds with the
same tree in its place, and where the parser fails, it fails with the same error. No slice misses
and no name is refused by the binder on the way. -/

namespace Preflight
set_option autoImplicit false

namespace OnePass

/-! ## Sound sessions -/

/-- The cursor stays between characters. It moves back only where the binder holds what it held. How
the moves follow each other, and which rule moves back, is told by `Led`. -/
def Move.Sound (text : List Char) : Move → Prop
  | forward start stop => start ≤ stop ∧ Boundary text start ∧ Boundary text stop
  | back start stop before after =>
    stop ≤ start ∧ Boundary text start ∧ Boundary text stop ∧ before = after

namespace BinderState

def names (b : BinderState) : Names := b.locals ++ b.globals

/-- The names in sight stand for symbols. -/
def Closed (b : BinderState) : Prop := ∀ p ∈ b.names, ∃ s, b.symbols.get? p.2 = some s

end BinderState

structure Session.Sound (text : List Char) (s : Session) : Prop where
  boundary : Boundary text s.offset
  closed : s.binder.Closed
  trail : ∀ m ∈ s.trail, m.Sound text

/-- What a reading in one pass is compared with: the text, where it stands, the first index, and
what is known of the local names in sight. -/
structure Setting where
  text : List Char
  base : Position
  first : Nat
  kept : Names → Prop

/-- The session is sound, and the local names are as they have to be. -/
structure Setting.Settled (f : Setting) (s : Session) : Prop extends s.Sound f.text where
  kept : f.kept s.binder.locals

/-- The session stands where the cursor of the parser stands. -/
structure Setting.Along (f : Setting) (c : Cursor) (s : Session) : Prop extends f.Settled s where
  stands : c.At f.text
  offset : s.offset = c.offset
  next : s.binder.next = f.first + c.next

/-- From `c` and `s`, the reader `q` does what the parser `p` does. -/
def Follows {α β : Type} (f : Setting) (p : Parser α) (q : Reader β) (c : Cursor) (s : Session)
    (post : α → β → Cursor → Session → Prop) : Prop :=
  match p.run c with
  | .ok (a, c') => ∃ b s', q.outcome s = some (.ok b, s') ∧ f.Along c' s' ∧ post a b c' s'
  | .error cause => ∃ s', q.outcome s = some (.error (.parse cause), s') ∧ f.Settled s'

namespace Reader

variable {α β : Type}

theorem outcome_bind (q : Reader α) (g : α → Reader β) (s : Session) :
    (q >>= g).outcome s = (q.outcome s).bind fun
      | (.ok a, s') => (g a).outcome s'
      | (.error cause, s') => some (.error cause, s') := by
  show (StateT.run (ExceptT.run q >>= ExceptT.bindCont g) s) = _
  rw [StateT.run_bind]
  apply bind_congr
  rintro ⟨a | cause, s'⟩ <;> rfl

theorem outcome_bind_of_ok {q : Reader α} {g : α → Reader β} {s s' : Session} {a : α}
    (h : q.outcome s = some (.ok a, s')) : (q >>= g).outcome s = (g a).outcome s' := by
  rw [outcome_bind, h]
  rfl

theorem outcome_bind_of_error {q : Reader α} {g : α → Reader β} {s s' : Session} {cause : Failure}
    (h : q.outcome s = some (.error cause, s')) :
    (q >>= g).outcome s = some (.error cause, s') := by
  rw [outcome_bind, h]
  rfl

theorem outcome_offset_bind (g : Nat → Reader α) (s : Session) :
    (offset >>= g).outcome s = (g s.offset).outcome s :=
  outcome_bind_of_ok rfl

end Reader

namespace Follows

variable {α β γ δ : Type} {f : Setting} {p : Parser α} {q : Reader β} {c c' : Cursor}
  {s s' : Session} {post mid : α → β → Cursor → Session → Prop}
  {final : γ → δ → Cursor → Session → Prop}

theorem pure {a : α} {b : β} (along : f.Along c s) (h : post a b c s) :
    Follows f (pure a) (pure b) c s post :=
  ⟨b, s, rfl, along, h⟩

theorem fail {cause : SyntaxError} (along : f.Along c s) :
    Follows f (throw cause : Parser α) (fail cause : Reader β) c s post :=
  ⟨s, rfl, along.toSettled⟩

theorem bind {k : α → Parser γ} {l : β → Reader δ} (h : Follows f p q c s mid)
    (hk : ∀ a b c' s', f.Along c' s' → mid a b c' s' → Follows f (k a) (l b) c' s' final) :
    Follows f (p >>= k) (q >>= l) c s final := by
  unfold Follows at h ⊢
  rw [StateT.run_bind]
  cases hp : p.run c with
  | error cause =>
    rw [hp] at h
    obtain ⟨s', hq, settled⟩ := h
    exact ⟨s', Reader.outcome_bind_of_error hq, settled⟩
  | ok result =>
    rw [hp] at h
    obtain ⟨b, s', hq, along, hmid⟩ := h
    have hnext := hk result.1 b result.2 s' along hmid
    unfold Follows at hnext
    rw [← Reader.outcome_bind_of_ok (g := l) hq] at hnext
    exact hnext

theorem imp {post' : α → β → Cursor → Session → Prop} (h : Follows f p q c s post)
    (hpost : ∀ a b c' s', f.Along c' s' → post a b c' s' → post' a b c' s') :
    Follows f p q c s post' := by
  unfold Follows at h ⊢
  split at h
  next =>
    obtain ⟨b, s', hq, along, hb⟩ := h
    exact ⟨b, s', hq, along, hpost _ b _ s' along hb⟩
  next => exact h

theorem of_eq {p' : Parser α} {q' : Reader β} (hp : p.run c = p'.run c')
    (hq : q.outcome s = q'.outcome s') (h : Follows f p' q' c' s' post) :
    Follows f p q c s post := by
  unfold Follows at h ⊢
  rwa [hp, hq]

/-- Only the parser takes a step. -/
theorem left {a : γ} {k : γ → Parser α} {p' : Parser γ} (hp : p'.run c = .ok (a, c'))
    (h : Follows f (k a) q c' s post) : Follows f (p' >>= k) q c s post := by
  have hrun : (p' >>= k).run c = (k a).run c' := by
    rw [StateT.run_bind, hp]
    rfl
  unfold Follows at h ⊢
  rwa [hrun]

/-- Only the reading takes a step. -/
theorem right {b : δ} {l : δ → Reader β} {q' : Reader δ} (hq : q'.outcome s = some (.ok b, s'))
    (h : Follows f p (l b) c s' post) : Follows f p (q' >>= l) c s post := by
  unfold Follows at h ⊢
  rwa [Reader.outcome_bind_of_ok hq]

end Follows

/-! ## What a step does -/

/-- Nothing is bound. -/
def quietly : Names → Binder Unit := fun _ => pure ()

/-- Beside the fresh indices, the binder does what `m` does with the names in sight. The names stay
in sight. -/
structure Effect (m : Names → Binder Unit) (b b' : BinderState) : Prop where
  globals : b'.globals = b.globals
  locals : b'.locals = b.locals
  symbols : (m b.names).run b.symbols = .ok ((), b'.symbols)

/-- At least `n` characters were passed, and the binder did what `m` does. -/
structure Passed (m : Names → Binder Unit) (n : Nat) (c : Cursor) (s : Session) (c' : Cursor)
    (s' : Session) : Prop where
  length : c'.rest.length + n ≤ c.rest.length
  effect : Effect m s.binder s'.binder

variable {f : Setting} {c c' c'' : Cursor} {s s' s'' : Session} {m m' : Names → Binder Unit}
  {k n : Nat}

theorem Effect.names {b b' : BinderState} (h : Effect m b b') : b'.names = b.names := by
  rw [BinderState.names, h.locals, h.globals, BinderState.names]

theorem Effect.trans {b b' b'' : BinderState} (h : Effect m b b') (h' : Effect m' b' b'') :
    Effect (fun names => m names >>= fun _ => m' names) b b'' := by
  refine ⟨h'.globals.trans h.globals, h'.locals.trans h.locals, ?_⟩
  have hsecond := h'.symbols
  rw [h.names] at hsecond
  rw [StateT.run_bind, h.symbols]
  exact hsecond

/-- What comes then binds nothing. -/
theorem Effect.before {b b' b'' : BinderState} (h : Effect m b b') (h' : Effect quietly b' b'') :
    Effect m b b'' := by
  have heffect := h.trans h'
  simp only [quietly, bind_pure_unit] at heffect
  exact heffect

/-- At least `n` characters were passed, and the binder was not touched. -/
structure Silent (n : Nat) (c : Cursor) (s : Session) (c' : Cursor) (s' : Session) : Prop where
  length : c'.rest.length + n ≤ c.rest.length
  binder : s'.binder = s.binder

namespace Silent

theorem refl : Silent 0 c s c s := ⟨Nat.le_refl _, rfl⟩

theorem passed (h : Silent n c s c' s') : Passed quietly n c s c' s' :=
  ⟨h.length, by rw [h.binder], by rw [h.binder], by rw [h.binder]; rfl⟩

theorem after (h' : Silent n c' s' c'' s'') (h : Silent k c s c' s') :
    Silent (k + n) c s c'' s'' := by
  have hfirst := h.length
  have hsecond := h'.length
  exact ⟨by omega, h'.binder.trans h.binder⟩

theorem weaken (h : Silent k c s c' s') (hn : n ≤ k) : Silent n c s c' s' := by
  have hlength := h.length
  exact ⟨by omega, h.binder⟩

end Silent

namespace Passed

theorem trans (h : Passed m k c s c' s') (h' : Passed m' n c' s' c'' s'') :
    Passed (fun names => m names >>= fun _ => m' names) (k + n) c s c'' s'' := by
  have hfirst := h.length
  have hsecond := h'.length
  exact ⟨by omega, h.effect.trans h'.effect⟩

/-- What went before bound nothing. -/
theorem after_quiet (h' : Passed m n c' s' c'' s'') (h : Passed quietly k c s c' s') :
    Passed m (k + n) c s c'' s'' := by
  have heffect := h.trans h'
  simp only [quietly, pure_bind] at heffect
  exact heffect

theorem after (h' : Passed m n c' s' c'' s'') (h : Silent k c s c' s') :
    Passed m (k + n) c s c'' s'' :=
  h'.after_quiet h.passed

/-- What comes then binds nothing. -/
theorem before (h : Passed m k c s c' s') (h' : Passed quietly n c' s' c'' s'') :
    Passed m (k + n) c s c'' s'' :=
  ⟨(h.trans h').length, h.effect.before h'.effect⟩

theorem weaken (h : Passed m k c s c' s') (hn : n ≤ k) : Passed m n c s c' s' := by
  have hlength := h.length
  exact ⟨by omega, h.effect⟩

end Passed

/-! ## Steps -/

namespace Setting.Along

/-- The session after the cursor moved. -/
def moved (s : Session) (k : Nat) : Session :=
  { s with
    offset := s.offset + k
    trail := .forward s.offset (s.offset + k) :: s.trail }

theorem outcome_advance (s : Session) (k : Nat) :
    (OnePass.advance k).outcome s = some (.ok (), moved s k) :=
  rfl

theorem advance (h : f.Along c s) (n : Nat) :
    f.Along (c.advance n) (moved s (utf8Length (c.rest.take n))) := by
  have stands : (c.advance n).At f.text := h.stands.passes (.advance c n)
  have hoffset : s.offset + utf8Length (c.rest.take n) = (c.advance n).offset := by
    rw [h.offset]
    rfl
  have hboundary : Boundary f.text (s.offset + utf8Length (c.rest.take n)) := by
    rw [hoffset]
    exact stands.boundary
  constructor
  · refine ⟨⟨hboundary, h.closed, ?_⟩, h.kept⟩
    rw [moved, List.forall_mem_cons]
    exact ⟨⟨Nat.le_add_right _ _, h.boundary, hboundary⟩, h.trail⟩
  · exact stands
  · exact hoffset
  · exact h.next

theorem outcome_rest (h : f.Along c s) : (rest f.text).outcome s = some (.ok c.rest, s) := by
  obtain ⟨before, htext, hoffset⟩ := h.stands
  have hsplit := splitBytes?_eq_some_iff.mpr ⟨htext, hoffset.symm.trans h.offset.symm⟩
  unfold rest
  rw [Reader.outcome_offset_bind, hsplit]
  rfl

theorem outcome_byteAt (h : f.Along c s) {taken rest : List Char} (hrest : c.rest = taken ++ rest) :
    (byteAt f.text (s.offset + utf8Length taken)).outcome s =
      some (.ok (rest.head?.map leadByte), s) := by
  obtain ⟨before, htext, hoffset⟩ := h.stands
  have hbyte := getElem?_utf8Bytes (before ++ taken) rest
  rw [List.append_assoc, ← hrest, ← htext, utf8Length_append, ← hoffset, ← h.offset] at hbyte
  rw [← hbyte]
  rfl

theorem outcome_peek (h : f.Along c s) :
    (peek f.text).outcome s = some (.ok (c.rest.head?.map leadByte), s) := by
  unfold peek
  rw [Reader.outcome_offset_bind]
  exact h.outcome_byteAt (List.nil_append c.rest).symm

/-- The byte that the session stands at. -/
theorem getElem?_offset (h : f.Along c s) :
    (utf8Bytes f.text)[s.offset]? = c.rest.head?.map leadByte :=
  Except.ok.inj (Prod.mk.inj (Option.some.inj h.outcome_peek)).1

theorem outcome_sliceFrom (h : f.Along c s) {before taken : List Char}
    (htext : f.text = before ++ (taken ++ c.rest)) :
    (sliceFrom f.text (utf8Length before)).outcome s = some (.ok taken, s) := by
  obtain ⟨front, hfront, hoffset⟩ := h.stands
  have hcut : front = before ++ taken := by
    apply (List.append_left_inj c.rest).mp
    rw [← hfront, htext, List.append_assoc]
  have hslice := slice?_append before taken c.rest
  rw [← htext, ← hcut, ← hoffset, ← h.offset] at hslice
  unfold sliceFrom
  rw [Reader.outcome_offset_bind, hslice]
  rfl

end Setting.Along

end OnePass

end Preflight
