import Mathlib.Data.List.DropRight
import Preflight.Parser.Expression

/-! # What a rule reads

A rule reads a text if it succeeds where the text stands, returns what the text says, and stops
where the text ends. Most rules pass blanks before anything else, so places in a text are told up
to blanks. -/

namespace Preflight
set_option autoImplicit false

/-- The second text is the first one, blanks in front of them aside. -/
def Near (t u : List Char) : Prop := u.dropWhile isBlank = t.dropWhile isBlank

theorem Near.refl (t : List Char) : Near t t := rfl

theorem near_dropWhile {t : List Char} (u : List Char) (h : u = t.dropWhile isBlank) : Near t u :=
  h ▸ List.dropWhile_idempotent isBlank t

/-- A letter or an underscore, then letters, digits and underscores. -/
def isName (x : String) : Bool := x.toList.head?.any isNameStart && x.toList.all isNameChar

/-- A kind of character that neither blank is of has no blanks. -/
theorem isBlank_eq_false {p : Char → Bool} {c : Char} (h : p c) (space : p ' ' = false)
    (tab : p '\t' = false) : isBlank c = false := by
  cases hc : isBlank c with
  | false => rfl
  | true =>
    rw [isBlank, Bool.or_eq_true, beq_iff_eq, beq_iff_eq] at hc
    rcases hc with rfl | rfl
    · exact absurd h (Bool.eq_false_iff.mp space)
    · exact absurd h (Bool.eq_false_iff.mp tab)

theorem isBlank_of_isNameStart {c : Char} (h : isNameStart c) : isBlank c = false :=
  isBlank_eq_false h rfl rfl

theorem isBlank_of_isDigit {c : Char} (h : c.isDigit) : isBlank c = false :=
  isBlank_eq_false h rfl rfl

theorem isNameStart_of_isDigit {c : Char} (h : c.isDigit) : isNameStart c = false := by
  obtain ⟨-, high⟩ := Char.isDigit_iff_toNat.mp h
  have letter : c.isAlpha = false := by
    -- letters of either case come after the digits
    refine Bool.eq_false_iff.mpr fun halpha => ?_
    rcases Bool.or_eq_true_iff.mp halpha with upper | lower
    · have first : 'A'.toNat ≤ c.toNat := UInt32.le_iff_toNat_le.mp (of_decide_eq_true upper).1
      exact absurd (Nat.le_trans first high) (by decide)
    · obtain ⟨lower, -⟩ := Bool.and_eq_true_iff.mp lower
      have first : 'a'.toNat ≤ c.toNat := UInt32.le_iff_toNat_le.mp (of_decide_eq_true lower)
      exact absurd (Nat.le_trans first high) (by decide)
  have underscore : c ≠ '_' := by
    rintro rfl
    exact absurd high (by decide)
  rw [isNameStart, letter, beq_eq_false_iff_ne.mpr underscore]
  rfl

theorem exists_cons_of_isName {x : String} (h : isName x) :
    ∃ c cs, x.toList = c :: cs ∧ isNameStart c ∧ ∀ d ∈ x.toList, isNameChar d := by
  rw [isName, Bool.and_eq_true, List.all_eq_true] at h
  obtain ⟨start, chars⟩ := h
  cases hx : x.toList with
  | nil => simp [hx] at start
  | cons c cs => exact ⟨c, cs, rfl, by simpa [hx] using start, by rwa [hx] at chars⟩

theorem dropWhile_name {x : String} (h : isName x) (rest : List Char) :
    (x.toList ++ rest).dropWhile isBlank = x.toList ++ rest := by
  obtain ⟨c, cs, hx, start, -⟩ := exists_cons_of_isName h
  rw [hx, List.cons_append, List.dropWhile_cons_of_neg (by simp [isBlank_of_isNameStart start])]

theorem ne_of_isNameStart {c d : Char} (h : isNameStart c) (hd : isNameStart d = false) :
    c ≠ d := by
  rintro rfl
  exact absurd h (Bool.eq_false_iff.mp hd)

/-- No mark stands where a name does. -/
theorem isPrefixOf_name {x : String} (h : isName x) {mark : Char} (hmark : isNameStart mark = false)
    (token rest : List Char) : (mark :: token).isPrefixOf (x.toList ++ rest) = false := by
  obtain ⟨c, cs, hx, start, -⟩ := exists_cons_of_isName h
  rw [hx, List.cons_append, List.isPrefixOf_cons_cons, Bool.and_eq_false_iff]
  exact .inl (beq_eq_false_iff_ne.mpr (ne_of_isNameStart start hmark).symm)

/-- A run of characters ends before the first one that does not belong to it. -/
theorem takeWhile_append_of_head? {p : Char → Bool} {xs rest : List Char} (hxs : ∀ c ∈ xs, p c)
    (hrest : rest.head?.any p = false) : (xs ++ rest).takeWhile p = xs := by
  rw [List.takeWhile_append_of_pos hxs]
  cases rest with
  | nil => simp
  | cons c cs => rw [List.takeWhile_cons_of_neg (by simpa using hrest), List.append_nil]

namespace Parser

variable {α β : Type}

/-- Where what is left of the text has `before`, `p` succeeds with something that has `result`, and
what it leaves has `after`. -/
def Reads (p : Parser α) (before : List Char → Prop) (result : α → Prop)
    (after : List Char → Prop) : Prop :=
  ∀ c : Cursor, before c.rest → ∃ a c', p.run c = .ok (a, c') ∧ result a ∧ after c'.rest

namespace Reads

variable {p : Parser α} {q : α → Parser β} {before before' mid after after' : List Char → Prop}
  {result result' : α → Prop} {final : β → Prop}

theorem pure {a : α} (h : result a) : Reads (pure a) before result before :=
  fun c hc => ⟨a, c, rfl, h, hc⟩

theorem bind (hp : Reads p before result mid) (hq : ∀ a, result a → Reads (q a) mid final after) :
    Reads (p >>= q) before final after := by
  intro c hc
  obtain ⟨a, c₁, run, ha, hc₁⟩ := hp c hc
  obtain ⟨b, c₂, run', hb, hc₂⟩ := hq a ha c₁ hc₁
  refine ⟨b, c₂, ?_, hb, hc₂⟩
  rw [StateT.run_bind, run]
  exact run'

/-- What comes back is known, so what follows is read for this value only. -/
theorem bind_eq {a : α} (hp : Reads p before (· = a) mid) (hq : Reads (q a) mid final after) :
    Reads (p >>= q) before final after := by
  refine hp.bind fun b hb => ?_
  rw [hb]
  exact hq

theorem imp (hp : Reads p before result after) (hbefore : ∀ t, before' t → before t)
    (hresult : ∀ a, result a → result' a) (hafter : ∀ t, after t → after' t) :
    Reads p before' result' after' := by
  intro c hc
  obtain ⟨a, c', run, ha, hc'⟩ := hp c (hbefore _ hc)
  exact ⟨a, c', run, hresult a ha, hafter _ hc'⟩

theorem result_imp (hp : Reads p before result after) (h : ∀ a, result a → result' a) :
    Reads p before result' after :=
  hp.imp (fun _ => id) h fun _ => id

theorem after_imp (hp : Reads p before result after) (h : ∀ t, after t → after' t) :
    Reads p before result after' :=
  hp.imp (fun _ => id) (fun _ => id) h

theorem pure_somewhere {a : α} (h : result a) :
    Reads (Pure.pure a) before result fun _ => True :=
  after_imp (.pure h) fun _ _ => trivial

theorem get_bind {q : Cursor → Parser β}
    (hq : ∀ c, before c.rest → Reads (q c) before final after) :
    Reads (get >>= q) before final after :=
  fun c hc => hq c hc c hc

theorem set {c : Cursor} (h : after c.rest) : Reads (set c) before (fun _ => True) after :=
  fun _ _ => ⟨⟨⟩, c, rfl, trivial, h⟩

variable {t u : List Char}

/-- What is read from near a place is read from that place. -/
theorem at_of_near (hp : Reads p (Near t) result after) : Reads p (· = t) result after :=
  hp.imp (fun _ h => h ▸ Near.refl t) (fun _ => id) fun _ => id

/-- What stops at a place stops near it. -/
theorem near_of_at (hp : Reads p before result (· = u)) : Reads p before result (Near u) :=
  hp.after_imp fun _ h => h ▸ Near.refl u

/-- Blanks in front of a text do not matter. -/
theorem blanks (hp : Reads p (Near t) result after)
    (h : t.dropWhile isBlank = u.dropWhile isBlank) : Reads p (Near u) result after :=
  hp.imp (fun _ hu => Eq.trans hu h.symm) (fun _ => id) fun _ => id

/-- Blanks that were passed before do not matter. -/
theorem from_blanks (hp : Reads p (Near t) result after) :
    Reads p (· = t.dropWhile isBlank) result after :=
  hp.imp near_dropWhile (fun _ => id) fun _ => id

theorem skip_blank (hp : Reads p (Near t) result after) : Reads p (· = ' ' :: t) result after :=
  (hp.blanks (u := ' ' :: t) rfl).at_of_near

end Reads

section Cursor

variable {before : List Char → Prop} {t u : List Char}

/-! ## Rules that pass nothing -/

theorem reads_offset : Reads offset before (fun _ => True) before :=
  fun c hc => ⟨c.offset, c, rfl, trivial, hc⟩

theorem reads_column : Reads column before (fun _ => True) before :=
  reads_offset.bind fun _ _ => .pure trivial

theorem reads_spanFrom (start : Nat) : Reads (spanFrom start) before (fun _ => True) before :=
  reads_offset.bind fun _ _ => .pure trivial

theorem reads_freshIndex : Reads freshIndex before (fun _ => True) before :=
  fun c hc => ⟨c.next, { c with next := c.next + 1 }, rfl, trivial, hc⟩

theorem reads_node (start : Nat) : Reads (node start) before (fun _ => True) before :=
  (reads_spanFrom start).bind fun _ _ => reads_freshIndex.bind fun _ _ => .pure trivial

theorem reads_declare (v : NameAt) : Reads (declare v) before (·.name = v.name) before :=
  reads_freshIndex.bind fun _ _ => .pure rfl

theorem reads_rest : Reads rest (· = t) (· = t) (· = t) := by
  rintro c rfl
  exact ⟨c.rest, c, rfl, rfl, rfl⟩

/-! ## Rules that pass what they look for -/

theorem reads_skip (n : Nat) : Reads (skip n) (· = t) (fun _ => True) (· = t.drop n) := by
  rintro c rfl
  exact ⟨⟨⟩, c.advance n, rfl, trivial, rfl⟩

theorem drop_length_takeWhile {γ : Type} (p : γ → Bool) (xs : List γ) :
    xs.drop (xs.takeWhile p).length = xs.dropWhile p := by
  induction xs with
  | nil => rfl
  | cons x xs ih => cases h : p x <;> simp [h, ih]

theorem reads_skipBlanks : Reads skipBlanks (Near t) (fun _ => True) (· = t.dropWhile isBlank) := by
  intro c hc
  refine ⟨⟨⟩, c.advance (c.rest.takeWhile isBlank).length, rfl, trivial, ?_⟩
  exact (drop_length_takeWhile isBlank c.rest).trans hc

/-- How most rules begin: past the blanks, where the span of what they read begins. -/
theorem reads_start {q : Nat → Parser β} {final : β → Prop} {after : List Char → Prop}
    (hq : ∀ start, Reads (q start) (· = t.dropWhile isBlank) final after) :
    Reads (do
      skipBlanks
      q (← offset)) (Near t) final after :=
  reads_skipBlanks.bind fun _ _ => reads_offset.bind fun start _ => hq start

theorem reads_eat (token : String) (h : t.dropWhile isBlank = token.toList ++ u) :
    Reads (eat token) (Near t) (· = true) (· = u) := by
  refine reads_skipBlanks.bind fun _ _ => reads_rest.bind_eq ?_
  have found : token.toList.isPrefixOf (t.dropWhile isBlank) = true := by
    rw [List.isPrefixOf_iff_prefix, h]
    exact List.prefix_append _ _
  have left : (t.dropWhile isBlank).drop token.length = u := by
    rw [h, ← String.length_toList, List.drop_left]
  rw [if_pos found]
  refine (reads_skip token.length).bind fun _ _ => ?_
  rw [left]
  exact .pure rfl

theorem reads_eat_not (token : String) (h : token.toList.isPrefixOf (t.dropWhile isBlank) = false) :
    Reads (eat token) (Near t) (· = false) (Near t) := by
  refine reads_skipBlanks.bind fun _ _ => reads_rest.bind_eq ?_
  rw [h, if_neg Bool.false_ne_true]
  exact Reads.after_imp (.pure rfl) near_dropWhile

theorem reads_eat_any (token : String) :
    Reads (eat token) (fun _ => True) (fun _ => True) fun _ => True := by
  intro c _
  cases h : token.toList.isPrefixOf (c.rest.dropWhile isBlank) with
  | false =>
    obtain ⟨a, c', run, -⟩ := reads_eat_not token h c (Near.refl _)
    exact ⟨a, c', run, trivial, trivial⟩
  | true =>
    obtain ⟨u, hu⟩ := List.isPrefixOf_iff_prefix.mp h
    obtain ⟨a, c', run, -⟩ := reads_eat token hu.symm c (Near.refl _)
    exact ⟨a, c', run, trivial, trivial⟩

theorem reads_expect (token : String) (h : t.dropWhile isBlank = token.toList ++ u) :
    Reads (expect token) (Near t) (fun _ => True) (· = u) :=
  (reads_eat token h).bind_eq (.pure trivial)

theorem reads_atKeyword (word : String) : Reads (atKeyword word) (· = t)
    (· = (word.toList.isPrefixOf t && !(t.drop word.length).head?.any isNameChar)) (· = t) :=
  reads_rest.bind_eq (.pure rfl)

theorem reads_name? {x : String} {rest : List Char} (hx : isName x)
    (hrest : rest.head?.any isNameChar = false) :
    Reads name? (Near (x.toList ++ rest)) (fun v => ∃ w, v = some w ∧ w.name = x) (· = rest) := by
  obtain ⟨c, cs, hcons, start, chars⟩ := exists_cons_of_isName hx
  refine reads_start fun _ => ?_
  rw [dropWhile_name hx]
  refine reads_rest.bind_eq ?_
  have head : (x.toList ++ rest).head?.any isNameStart = true := by simpa [hcons] using start
  have taken : (x.toList ++ rest).takeWhile isNameChar = x.toList :=
    takeWhile_append_of_head? chars hrest
  rw [if_pos head, taken]
  refine (reads_skip _).bind fun _ _ => (reads_spanFrom _).bind fun span _ => ?_
  rw [List.drop_left, String.ofList_toList]
  exact .pure ⟨_, rfl, rfl⟩

theorem reads_name?_none (h : (t.dropWhile isBlank).head?.any isNameStart = false) :
    Reads name? (Near t) (· = none) (Near t) := by
  refine reads_start fun _ => ?_
  refine reads_rest.bind_eq ?_
  rw [h, if_neg Bool.false_ne_true]
  exact Reads.after_imp (.pure rfl) near_dropWhile

end Cursor

end Parser

end Preflight
