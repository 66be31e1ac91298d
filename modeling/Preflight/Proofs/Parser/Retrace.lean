import Preflight.Proofs.Ensures
import Preflight.Proofs.Parser.Reads

/-! # Reading a text again

What a rule does depends on the text that it passes alone. So it does the same where the text is cut
off further behind, at any place in a file, and with any number of turns that is enough. -/

namespace Preflight
set_option autoImplicit false

/-! ## Texts that are cut off -/

theorem takeWhile_of_isPrefix {α : Type} {p : α → Bool} {text cut : List α} (h : cut <+: text)
    (hlength : (text.takeWhile p).length ≤ cut.length) : cut.takeWhile p = text.takeWhile p := by
  induction cut generalizing text with
  | nil =>
    have hnil : text.takeWhile p = [] := List.length_eq_zero_iff.mp (Nat.le_zero.mp hlength)
    rw [hnil]
    rfl
  | cons c cut ih =>
    obtain ⟨rest, rfl⟩ := h
    rw [List.cons_append] at hlength ⊢
    cases hc : p c with
    | false => simp [hc]
    | true =>
      rw [List.takeWhile_cons_of_pos hc, List.takeWhile_cons_of_pos hc]
      rw [List.takeWhile_cons_of_pos hc, List.length_cons, List.length_cons] at hlength
      rw [ih (List.prefix_append cut rest) (Nat.le_of_succ_le_succ hlength)]

theorem head?_of_isPrefix {α : Type} {text cut : List α} (h : cut <+: text) (hcut : cut ≠ []) :
    cut.head? = text.head? := by
  obtain ⟨rest, rfl⟩ := h
  cases cut with
  | nil => exact absurd rfl hcut
  | cons c cut => rfl

/-- What does not begin a text does not begin what is left of it. -/
theorem head?_any_of_isPrefix {α : Type} {p : α → Bool} {text cut : List α} (h : cut <+: text)
    (htext : text.head?.any p = false) : cut.head?.any p = false := by
  cases cut with
  | nil => rfl
  | cons c cut => rwa [head?_of_isPrefix h (List.cons_ne_nil c cut)]

theorem head?_dropWhile {α : Type} (p : α → Bool) (text : List α) :
    (text.dropWhile p).head?.any p = false := by
  induction text with
  | nil => rfl
  | cons c text ih =>
    cases hc : p c with
    | false => simp [hc]
    | true => rwa [List.dropWhile_cons_of_pos hc]

theorem dropWhile_eq_self {α : Type} {p : α → Bool} {text : List α}
    (h : text.head?.any p = false) : text.dropWhile p = text := by
  cases text with
  | nil => rfl
  | cons c text => exact List.dropWhile_cons_of_neg (by simpa using h)

theorem takeWhile_eq_nil {α : Type} {p : α → Bool} {text : List α}
    (h : text.head?.any p = false) : text.takeWhile p = [] := by
  cases text with
  | nil => rfl
  | cons c text => exact List.takeWhile_cons_of_neg (by simpa using h)

theorem eq_dropWhile_of_append {α : Type} {p : α → Bool} {text rest : List α}
    (h : text = text.takeWhile p ++ rest) : rest = text.dropWhile p := by
  rw [← List.append_cancel_left_eq (text.takeWhile p), List.takeWhile_append_dropWhile, ← h]

theorem length_of_dropWhile_eq {α : Type} {p : α → Bool} {text front rest : List α}
    (h : text.dropWhile p = front ++ rest) : front.length + rest.length ≤ text.length := by
  rw [← List.length_append, ← h]
  exact (List.dropWhile_sublist p).length_le

theorem isPrefixOf_of_isPrefix {token text cut : List Char} (h : cut <+: text)
    (htext : token.isPrefixOf text = false) : token.isPrefixOf cut = false := by
  rw [Bool.eq_false_iff] at htext ⊢
  intro hcut
  exact htext (List.isPrefixOf_iff_prefix.mpr ((List.isPrefixOf_iff_prefix.mp hcut).trans h))

theorem isNameChar_of_isNameStart {c : Char} (h : isNameStart c) : isNameChar c := by
  simp only [isNameStart, isNameChar, Char.isAlphanum, Bool.or_eq_true] at h ⊢
  tauto

/-- The name that a text begins with. -/
theorem isName_takeWhile {text : List Char} (h : text.head?.any isNameStart = true) :
    isName (.ofList (text.takeWhile isNameChar)) := by
  rw [isName, String.toList_ofList, Bool.and_eq_true, List.all_eq_true]
  refine ⟨?_, fun c hc => List.mem_takeWhile_imp hc⟩
  cases text with
  | nil => exact h
  | cons c text =>
    rw [List.takeWhile_cons_of_pos (isNameChar_of_isNameStart h)]
    exact h

theorem head?_of_isName_takeWhile {text cut : List Char}
    (h : isName (.ofList (text.takeWhile isNameChar)))
    (hcut : text.takeWhile isNameChar <+: cut) : cut.head?.any isNameStart = true := by
  obtain ⟨c, cs, hcons, hstart, -⟩ := exists_cons_of_isName h
  rw [String.toList_ofList] at hcons
  rw [hcons] at hcut
  obtain ⟨rest, rfl⟩ := hcut
  exact hstart

/-! ## What is passed -/

/-- From the first cursor to the second, a text is passed. -/
structure Cursor.Passes (c : Cursor) (t : List Char) (c' : Cursor) : Prop where
  rest : c.rest = t ++ c'.rest
  offset : c'.offset = c.offset + utf8Length t

namespace Cursor.Passes

variable {c c' c'' : Cursor} {t t' : List Char}

theorem of_still (hrest : c'.rest = c.rest) (hoffset : c'.offset = c.offset) : c.Passes [] c' :=
  ⟨hrest.symm, hoffset⟩

theorem trans (h : c.Passes t c') (h' : c'.Passes t' c'') : c.Passes (t ++ t') c'' where
  rest := by rw [h.rest, h'.rest, List.append_assoc]
  offset := by rw [h'.offset, h.offset, utf8Length_append, Nat.add_assoc]

theorem unique (h : c.Passes t c') (h' : c.Passes t' c') : t = t' :=
  List.append_cancel_right (h.rest.symm.trans h'.rest)

theorem advance (c : Cursor) (n : Nat) : c.Passes (c.rest.take n) (c.advance n) :=
  ⟨(List.take_append_drop n c.rest).symm, rfl⟩

end Cursor.Passes

namespace Parser

variable {α β γ δ : Type}

theorem run_bind_eq_ok_iff {p : Parser α} {f : α → Parser β} {c c' : Cursor} {b : β} :
    (p >>= f).run c = .ok (b, c') ↔
      ∃ a c₁, p.run c = .ok (a, c₁) ∧ (f a).run c₁ = .ok (b, c') := by
  rw [StateT.run_bind, bind_eq_ok_iff]
  exact Prod.exists

/-- The rule succeeds everywhere, with something that has `result`, and passes nothing. -/
def Still (p : Parser α) (result : α → Prop) : Prop :=
  ∀ c, ∃ a c', p.run c = .ok (a, c') ∧ result a ∧ c'.rest = c.rest ∧ c'.offset = c.offset

namespace Still

variable {p : Parser α} {f : α → Parser β} {result : α → Prop} {final : β → Prop}

theorem pure {a : α} (h : result a) : Still (pure a) result := fun c => ⟨a, c, rfl, h, rfl, rfl⟩

theorem bind (hp : Still p result) (hf : ∀ a, result a → Still (f a) final) :
    Still (p >>= f) final := by
  intro c
  obtain ⟨a, c₁, run, ha, hrest, hoffset⟩ := hp c
  obtain ⟨b, c₂, run', hb, hrest', hoffset'⟩ := hf a ha c₁
  refine ⟨b, c₂, ?_, hb, hrest'.trans hrest, hoffset'.trans hoffset⟩
  exact run_bind_eq_ok_iff.mpr ⟨a, c₁, run, run'⟩

end Still

theorem still_offset : Still offset fun _ => True := fun c => ⟨c.offset, c, rfl, trivial, rfl, rfl⟩

theorem still_freshIndex : Still freshIndex fun _ => True :=
  fun c => ⟨c.next, { c with next := c.next + 1 }, rfl, trivial, rfl, rfl⟩

theorem still_column : Still column fun _ => True := still_offset.bind fun _ _ => .pure trivial

theorem still_spanFrom (start : Nat) : Still (spanFrom start) fun _ => True :=
  still_offset.bind fun _ _ => .pure trivial

theorem still_node (start : Nat) : Still (node start) fun _ => True :=
  (still_spanFrom start).bind fun _ _ => still_freshIndex.bind fun _ _ => .pure trivial

theorem still_declare (v : NameAt) : Still (declare v) (·.name = v.name) :=
  still_freshIndex.bind fun _ _ => .pure rfl

theorem still_declareAll (vs : List NameAt) :
    Still (vs.mapM declare) fun xs => xs.map LocalVar.name = vs.map NameAt.name := by
  induction vs with
  | nil =>
    rw [List.mapM_nil]
    exact .pure rfl
  | cons v vs ih =>
    rw [List.mapM_cons]
    refine (still_declare v).bind fun x hx => ih.bind fun xs hxs => .pure ?_
    rw [List.map_cons, List.map_cons, hx, hxs]

theorem still_declareOption (v : Option NameAt) :
    Still (v.mapM declare) fun x => x.map LocalVar.name = v.map NameAt.name := by
  cases v with
  | none => exact .pure rfl
  | some v =>
    rw [Option.mapM_some, map_eq_pure_bind]
    exact (still_declare v).bind fun x hx => .pure (congrArg some hx)

/-! ## Reading again -/

/-- Where `p` reads the text, it passes something with `passed`; and if the text is cut off anywhere
behind that, and at most `bound` characters are left of it, `q` reads the same and stops there. What
is the same is told by `key`. -/
def Retraces (text : List Char) (bound : Nat) (p q : Parser α) (key : α → γ)
    (passed : α → List Char → Prop) : Prop :=
  ∀ c a c', c.rest = text → p.run c = .ok (a, c') →
    ∃ t, c.Passes t c' ∧ passed a t ∧ ∀ u, u <+: c'.rest → (t ++ u).length ≤ bound →
      Reads q (· = t ++ u) (fun b => key b = key a) (· = u)

namespace Retraces

variable {text : List Char} {bound bound' : Nat} {p q : Parser α} {f g : α → Parser β}
  {key : α → γ} {key' : β → δ} {passed : α → List Char → Prop} {passed' : β → List Char → Prop}

theorem pure {a b : α} (hkey : key b = key a) (h : passed a []) :
    Retraces text bound (pure a) (pure b) key passed := by
  intro c a' c' hc run
  cases run
  exact ⟨[], .of_still rfl rfl, h, fun u _ _ => .pure hkey⟩

theorem of_fails (h : ∀ c r, p.run c ≠ .ok r) : Retraces text bound p q key passed :=
  fun c a c' _ run => absurd run (h c (a, c'))

theorem throw {e : SyntaxError} : Retraces text bound (throw e) q key passed :=
  of_fails nofun

theorem bind (hp : Retraces text bound p q key passed)
    (hf : ∀ a b t rest, text = t ++ rest → passed a t → key b = key a →
      Retraces rest (bound - t.length) (f a) (g b) key' fun x u => passed' x (t ++ u)) :
    Retraces text bound (p >>= f) (q >>= g) key' passed' := by
  intro c x c'' hc run
  obtain ⟨a, c', run₁, run₂⟩ := run_bind_eq_ok_iff.mp run
  obtain ⟨t, pass₁, ha, reads₁⟩ := hp c a c' hc run₁
  have hsplit : text = t ++ c'.rest := hc.symm.trans pass₁.rest
  obtain ⟨t', pass₂, hx, -⟩ := hf a a t c'.rest hsplit ha rfl c' x c'' rfl run₂
  refine ⟨t ++ t', pass₁.trans pass₂, hx, fun u hu hbound => ?_⟩
  rw [List.append_assoc] at hbound ⊢
  have hcut : t' ++ u <+: c'.rest := by
    rw [pass₂.rest]
    exact (List.prefix_append_right_inj t').mpr hu
  refine (reads₁ (t' ++ u) hcut hbound).bind fun b hb => ?_
  obtain ⟨t₂, pass₂', -, reads₂⟩ := hf a b t c'.rest hsplit ha hb c' x c'' rfl run₂
  obtain rfl := pass₂.unique pass₂'
  rw [List.length_append] at hbound
  exact reads₂ u hu (by omega)

theorem imp {passed' : α → List Char → Prop} (h : Retraces text bound p q key passed)
    (hpassed : ∀ a t, passed a t → passed' a t) : Retraces text bound p q key passed' := by
  intro c a c' hc run
  obtain ⟨t, pass, ha, reads⟩ := h c a c' hc run
  exact ⟨t, pass, hpassed a t ha, reads⟩

theorem mono (h : Retraces text bound p q key passed) (hbound : bound' ≤ bound) :
    Retraces text bound' p q key passed := by
  intro c a c' hc run
  obtain ⟨t, pass, ha, reads⟩ := h c a c' hc run
  exact ⟨t, pass, ha, fun u hu hlength => reads u hu (Nat.le_trans hlength hbound)⟩

/-- Nothing is left only of what passes nothing. -/
theorem zero {q' : Parser α} (h : Retraces text 0 p q' key passed)
    (hnil : ∀ a, passed a [] → Reads q (· = []) (fun b => key b = key a) (· = [])) :
    Retraces text 0 p q key passed := by
  intro c a c' hc run
  obtain ⟨t, pass, ha, -⟩ := h c a c' hc run
  refine ⟨t, pass, ha, fun u hu hlength => ?_⟩
  obtain ⟨rfl, rfl⟩ := List.append_eq_nil_iff.mp (List.length_eq_zero_iff.mp
    (Nat.le_zero.mp hlength))
  exact hnil a ha

/-- A rule that passes something has a turn for it. -/
theorem turn {q : Nat → Parser α} {m : Nat} (hm : bound ≤ m)
    (h : ∀ k, bound ≤ k + 1 → Retraces text bound p (q (k + 1)) key passed)
    (hnil : ∀ a, ¬passed a []) : Retraces text bound p (q m) key passed := by
  cases m with
  | zero =>
    obtain rfl : bound = 0 := Nat.le_zero.mp hm
    exact (h 0 (Nat.zero_le 1)).zero fun a ha => absurd ha (hnil a)
  | succ k => exact h k hm

/-- What is read again is read from the text that was passed alone. -/
theorem reads {c c' : Cursor} {a : α} {t : List Char}
    (h : Retraces c.rest bound p q key passed) (run : p.run c = .ok (a, c'))
    (pass : c.Passes t c') (hbound : t.length ≤ bound) :
    Reads q (· = t) (fun b => key b = key a) (· = []) := by
  obtain ⟨t', pass', -, reads⟩ := h c a c' rfl run
  obtain rfl := pass.unique pass'
  have hread := reads [] List.nil_prefix (by rwa [List.append_nil])
  rwa [List.append_nil] at hread

/-- Places and indices make no difference to what is read. -/
theorem still_bind {result result' : α → Prop} (hp : Still p result) (hq : Still q result')
    (hf : ∀ a b, result a → result' b → Retraces text bound (f a) (g b) key' passed') :
    Retraces text bound (p >>= f) (q >>= g) key' passed' := by
  intro c x c'' hc run
  obtain ⟨a, c', run₁, ha, hrest, hoffset⟩ := hp c
  obtain ⟨a', c₁, run', run₂⟩ := run_bind_eq_ok_iff.mp run
  cases run₁.symm.trans run'
  have still : c.Passes [] c' := .of_still hrest hoffset
  obtain ⟨b, -, -, hb, -⟩ := hq c
  obtain ⟨t, pass, hx, -⟩ := hf a b ha hb c' x c'' (hrest.trans hc) run₂
  refine ⟨t, still.trans pass, hx, fun u hu hbound => ?_⟩
  rintro d hd
  obtain ⟨b, d', run', hb, hd', -⟩ := hq d
  obtain ⟨t', pass', -, reads⟩ := hf a b ha hb c' x c'' (hrest.trans hc) run₂
  obtain rfl := pass.unique pass'
  obtain ⟨y, d'', run'', hy, hd''⟩ := reads u hu hbound d' (hd'.trans hd)
  exact ⟨y, d'', run_bind_eq_ok_iff.mpr ⟨b, d', run', run''⟩, hy, hd''⟩

variable {f g : List Char → Parser β}

/-- A rule may look at the whole text, if what it does next is the same for any text that is cut off
behind what it passes in the end. -/
theorem rest_bind (h : Retraces text bound (f text) (g text) key' passed')
    (hcut : ∀ cut b t, passed' b t → t <+: cut → cut <+: text →
      ∀ d r, (g text).run d = .ok r → (g cut).run d = .ok r) :
    Retraces text bound (rest >>= f) (rest >>= g) key' passed' := by
  intro c b c' hc run
  subst hc
  obtain ⟨t, pass, hb, reads⟩ := h c b c' rfl run
  refine ⟨t, pass, hb, fun u hu hbound => reads_rest.bind_eq ?_⟩
  intro d hd
  obtain ⟨y, d', run', hy, hd'⟩ := reads u hu hbound d hd
  refine ⟨y, d', ?_, hy, hd'⟩
  apply hcut _ b t hb (List.prefix_append t u) _ d _ run'
  rw [pass.rest]
  exact (List.prefix_append_right_inj t).mpr hu

end Retraces

/-! ## Rules that pass what they look for -/

section

variable {text : List Char} {bound : Nat}

theorem retraces_skip (n : Nat) :
    Retraces text bound (skip n) (skip n) (fun _ => ()) fun _ t => t = text.take n := by
  intro c a c' hc run
  cases run
  subst hc
  refine ⟨_, .advance c n, rfl, fun u hu _ => ?_⟩
  refine (reads_skip n).imp (fun _ => id) (fun _ _ => rfl) ?_
  rintro _ rfl
  rw [List.drop_append, List.drop_take_self, List.nil_append, List.length_take]
  by_cases hn : n ≤ c.rest.length
  · rw [Nat.min_eq_left hn, Nat.sub_self, List.drop_zero]
  · have hnil : c.rest.drop n = [] := List.drop_eq_nil_of_le (by omega)
    have hu : u = [] := List.prefix_nil.mp (hnil ▸ hu)
    rw [hu, List.drop_nil]

theorem take_length_takeWhile {α : Type} (p : α → Bool) (xs : List α) :
    xs.take (xs.takeWhile p).length = xs.takeWhile p :=
  (List.prefix_iff_eq_take.mp (List.takeWhile_prefix p)).symm

theorem retraces_skipBlanks : Retraces text bound skipBlanks skipBlanks (fun _ => ())
    fun _ t => t = text.takeWhile isBlank := by
  refine Retraces.rest_bind ((retraces_skip _).imp ?_) ?_
  · rintro - t rfl
    exact take_length_takeWhile isBlank text
  · rintro cut - t rfl ht hcut d r run
    rwa [takeWhile_of_isPrefix hcut ht.length_le]

end

namespace Retraces

variable {text : List Char} {bound : Nat} {key : β → δ} {passed : β → List Char → Prop}

theorem skip_bind {f g : Unit → Parser β} {n : Nat}
    (h : Retraces (text.drop n) (bound - (text.take n).length) (f ()) (g ()) key fun x u =>
      passed x (text.take n ++ u)) :
    Retraces text bound (skip n >>= f) (skip n >>= g) key passed := by
  refine (retraces_skip n).bind ?_
  rintro - - t rest hsplit rfl -
  obtain rfl : text.drop n = rest := by
    rw [← List.append_cancel_left_eq (text.take n), List.take_append_drop, ← hsplit]
  exact h

/-- The first character is passed. -/
theorem skip_one_bind {f g : Unit → Parser β} {c : Char}
    (h : Retraces text (bound - 1) (f ()) (g ()) key fun x u => passed x (c :: u)) :
    Retraces (c :: text) bound (skip 1 >>= f) (skip 1 >>= g) key passed :=
  skip_bind h

theorem blanks_bind {f g : Unit → Parser β}
    (h : Retraces (text.dropWhile isBlank) bound (f ()) (g ()) key fun x u =>
      passed x (text.takeWhile isBlank ++ u)) :
    Retraces text bound (skipBlanks >>= f) (skipBlanks >>= g) key passed := by
  refine retraces_skipBlanks.bind ?_
  rintro - - t rest hsplit rfl -
  obtain rfl := eq_dropWhile_of_append hsplit
  exact h.mono (Nat.sub_le _ _)

/-- How most rules begin: past the blanks, where the span of what they read begins. -/
theorem start_bind {f g : Nat → Parser β}
    (h : ∀ start start', Retraces (text.dropWhile isBlank) bound (f start) (g start') key
      fun x u => passed x (text.takeWhile isBlank ++ u)) :
    Retraces text bound (do
      skipBlanks
      f (← offset)) (do
      skipBlanks
      g (← offset)) key passed :=
  blanks_bind (still_bind still_offset still_offset fun start start' _ _ => h start start')

end Retraces

section

variable {text : List Char} {bound : Nat}

theorem retraces_eat (token : String) : Retraces text bound (eat token) (eat token) id
    fun found t => t = text.takeWhile isBlank ++ (if found then token.toList else []) ∧
      (found = false → token.toList.isPrefixOf (text.dropWhile isBlank) = false) := by
  refine Retraces.blanks_bind (Retraces.rest_bind ?_ ?_)
  · split
    next found =>
      obtain ⟨rest, hrest⟩ := List.isPrefixOf_iff_prefix.mp found
      refine Retraces.skip_bind (.pure rfl ?_)
      rw [← hrest, ← String.length_toList, List.take_left, List.append_nil]
      exact ⟨rfl, nofun⟩
    next missing => exact .pure rfl ⟨rfl, fun _ => Bool.eq_false_iff.mpr missing⟩
  · rintro cut found t ⟨ht, hmissing⟩ hcut hfront d r run
    cases found with
    | true =>
      obtain rfl : t = token.toList := List.append_cancel_left ht
      have hcut := List.isPrefixOf_iff_prefix.mpr hcut
      have htext := List.isPrefixOf_iff_prefix.mpr
        ((List.isPrefixOf_iff_prefix.mp hcut).trans hfront)
      rw [if_pos htext] at run
      rwa [if_pos hcut]
    | false =>
      rw [hmissing rfl] at run
      rwa [isPrefixOf_of_isPrefix hfront (hmissing rfl)]

end

namespace Retraces

variable {text : List Char} {bound : Nat} {key : β → δ} {passed : β → List Char → Prop}

theorem eat_bind {token : String} {f g : Bool → Parser β} (htoken : 1 ≤ token.toList.length)
    (found : ∀ rest, text.dropWhile isBlank = token.toList ++ rest → rest.length < text.length →
      Retraces rest (bound - 1) (f true) (g true) key fun x u =>
        passed x (text.takeWhile isBlank ++ (token.toList ++ u)))
    (missing : token.toList.isPrefixOf (text.dropWhile isBlank) = false →
      Retraces (text.dropWhile isBlank) bound (f false) (g false) key fun x u =>
        passed x (text.takeWhile isBlank ++ u)) :
    Retraces text bound (eat token >>= f) (eat token >>= g) key passed := by
  refine (retraces_eat token).bind ?_
  rintro here here' t rest hsplit ⟨rfl, hmissing⟩ hkey
  obtain rfl : here' = here := hkey
  cases here' with
  | true =>
    rw [if_pos rfl] at hsplit ⊢
    rw [List.append_assoc] at hsplit
    have hrest := (eq_dropWhile_of_append hsplit).symm
    have hlength := length_of_dropWhile_eq hrest
    refine ((found rest hrest (by omega)).mono ?_).imp ?_
    · rw [List.length_append]
      omega
    · intro x u hx
      rwa [List.append_assoc]
  | false =>
    rw [if_neg Bool.false_ne_true, List.append_nil] at hsplit ⊢
    obtain rfl := eq_dropWhile_of_append hsplit
    exact (missing (hmissing rfl)).mono (Nat.sub_le _ _)

end Retraces

section

variable {text : List Char} {bound : Nat}

theorem retraces_expect (token : String) (htoken : 1 ≤ token.toList.length) :
    Retraces text bound (expect token) (expect token) (fun _ => ()) fun _ t =>
      t = text.takeWhile isBlank ++ token.toList ∧
        token.toList.isPrefixOf (text.dropWhile isBlank) = true := by
  refine Retraces.eat_bind htoken (fun rest hrest _ => .pure rfl ⟨?_, ?_⟩) (fun _ => ?_)
  · rw [List.append_nil]
  · rw [hrest, List.isPrefixOf_iff_prefix]
    exact List.prefix_append _ _
  · exact Retraces.still_bind still_column still_column fun _ _ _ _ => .throw

theorem retraces_name? : Retraces text bound name? name? (Option.map NameAt.name) fun v t =>
    t = text.takeWhile isBlank ++ (v.elim [] fun v => v.name.toList) ∧
      (∀ x ∈ v, isName x.name ∧
        x.name.toList = (text.dropWhile isBlank).takeWhile isNameChar) ∧
      (v = none → (text.dropWhile isBlank).head?.any isNameStart = false) := by
  refine Retraces.start_bind fun start start' => Retraces.rest_bind ?_ ?_
  · split
    next head =>
      refine Retraces.skip_bind ?_
      refine Retraces.still_bind (still_spanFrom start) (still_spanFrom start') fun _ _ _ _ => ?_
      refine .pure rfl ⟨?_, ?_, nofun⟩
      · rw [take_length_takeWhile, List.append_nil, Option.elim_some, String.toList_ofList]
      · rintro - ⟨⟩
        exact ⟨isName_takeWhile head, String.toList_ofList⟩
    next missing => exact .pure rfl ⟨rfl, nofun, fun _ => Bool.eq_false_iff.mpr missing⟩
  · rintro cut v t ⟨ht, hname, hmissing⟩ hcut hfront d r run
    cases v with
    | none =>
      rw [hmissing rfl, if_neg Bool.false_ne_true] at run
      rwa [head?_any_of_isPrefix hfront (hmissing rfl), if_neg Bool.false_ne_true]
    | some v =>
      obtain ⟨hv, hlongest⟩ := hname v rfl
      obtain rfl : t = v.name.toList := List.append_cancel_left ht
      rw [← String.ofList_toList (s := v.name), hlongest] at hv
      rw [hlongest] at hcut
      rw [if_pos (head?_of_isName_takeWhile hv (List.takeWhile_prefix _))] at run
      rwa [if_pos (head?_of_isName_takeWhile hv hcut), takeWhile_of_isPrefix hfront hcut.length_le]

end

namespace Retraces

variable {text : List Char} {bound : Nat} {key : β → δ} {passed : β → List Char → Prop}

theorem expect_bind {token : String} {f g : Unit → Parser β} (htoken : 1 ≤ token.toList.length)
    (h : ∀ rest, text.dropWhile isBlank = token.toList ++ rest → rest.length < text.length →
      Retraces rest (bound - 1) (f ()) (g ()) key fun x u =>
        passed x (text.takeWhile isBlank ++ (token.toList ++ u))) :
    Retraces text bound (expect token >>= f) (expect token >>= g) key passed := by
  refine (retraces_expect token htoken).bind ?_
  rintro - - t rest hsplit ⟨rfl, -⟩ -
  rw [List.append_assoc] at hsplit
  have hrest := (eq_dropWhile_of_append hsplit).symm
  have hlength := length_of_dropWhile_eq hrest
  refine ((h rest hrest (by omega)).mono ?_).imp ?_
  · rw [List.length_append]
    omega
  · intro x u hx
    rwa [List.append_assoc]

/-- A name is passed to its end. -/
theorem name_bind {f g : Option NameAt → Parser β}
    (found : ∀ v v' rest, isName v.name → v'.name = v.name →
      text.dropWhile isBlank = v.name.toList ++ rest → rest.head?.any isNameChar = false →
      rest.length < text.length →
      Retraces rest (bound - 1) (f (some v)) (g (some v')) key fun x u =>
        passed x (text.takeWhile isBlank ++ (v.name.toList ++ u)))
    (missing : (text.dropWhile isBlank).head?.any isNameStart = false →
      Retraces (text.dropWhile isBlank) bound (f none) (g none) key fun x u =>
        passed x (text.takeWhile isBlank ++ u)) :
    Retraces text bound (name? >>= f) (name? >>= g) key passed := by
  refine retraces_name?.bind ?_
  rintro v v' t rest hsplit ⟨rfl, hname, hmissing⟩ hkey
  cases v with
  | none =>
    obtain rfl : v' = none := Option.map_eq_none_iff.mp hkey
    rw [Option.elim_none, List.append_nil] at hsplit ⊢
    obtain rfl := eq_dropWhile_of_append hsplit
    exact (missing (hmissing rfl)).mono (Nat.sub_le _ _)
  | some v =>
    obtain ⟨v', rfl, hkey⟩ := Option.map_eq_some_iff.mp hkey
    obtain ⟨hv, hlongest⟩ := hname v rfl
    rw [Option.elim_some] at hsplit ⊢
    rw [List.append_assoc] at hsplit
    have hrest := (eq_dropWhile_of_append hsplit).symm
    obtain ⟨c, cs, hcons, -, hchars⟩ := exists_cons_of_isName hv
    have hstop : rest.head?.any isNameChar = false := by
      rw [hrest, List.takeWhile_append_of_pos hchars, List.self_eq_append_right] at hlongest
      have hhead := head?_dropWhile isNameChar rest
      rwa [← List.takeWhile_append_dropWhile (p := isNameChar) (l := rest), hlongest,
        List.nil_append]
    have hkey : v'.name = v.name := Option.some.inj hkey
    have hlength := length_of_dropWhile_eq hrest
    have hpos : 1 ≤ v.name.toList.length := by simp [hcons]
    refine ((found v v' rest hv hkey hrest hstop (by omega)).mono ?_).imp ?_
    · rw [List.length_append]
      omega
    · intro x u hx
      rwa [List.append_assoc]

end Retraces

end Parser

end Preflight
