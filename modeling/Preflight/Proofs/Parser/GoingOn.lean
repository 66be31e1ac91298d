import Preflight.Proofs.Parser.Nodes
import Preflight.Proofs.Parser.Retrace

/-! # Texts that go on

A text that was read is read the same where it goes on with what may stand after an expression. A
rule looks no further ahead than one mark, and none of the marks that it looks for stands there. -/

namespace Preflight
set_option autoImplicit false

variable {u text : List Char}

/-! ## What a text goes on with -/

theorem takeWhile_append_left {p : Char → Bool} (text : List Char)
    (hu : u.head?.any p = false) : (text ++ u).takeWhile p = text.takeWhile p := by
  induction text with
  | nil => exact takeWhile_eq_nil hu
  | cons c text ih =>
    rw [List.cons_append]
    cases hc : p c with
    | false =>
      have hneg : ¬p c = true := Bool.eq_false_iff.mp hc
      rw [List.takeWhile_cons_of_neg hneg, List.takeWhile_cons_of_neg hneg]
    | true => rw [List.takeWhile_cons_of_pos hc, List.takeWhile_cons_of_pos hc, ih]

theorem head?_any_append {p : Char → Bool} (text : List Char) (hu : u.head?.any p = false) :
    (text ++ u).head?.any p = text.head?.any p := by
  cases text with
  | nil => exact hu
  | cons c text => rfl

theorem head?_beq_append {c : Char} (text : List Char) (hu : u.head?.any (· == c) = false) :
    ((text ++ u).head? == some c) = (text.head? == some c) := by
  cases text with
  | cons d text => rfl
  | nil =>
    cases u with
    | nil => rfl
    | cons d u => simpa using hu

/-- What begins with none of the characters of a word does not complete it. -/
theorem isPrefixOf_append {word : List Char} (text : List Char)
    (hu : u.head?.any (· ∈ word) = false) : word.isPrefixOf (text ++ u) = word.isPrefixOf text := by
  induction word generalizing text with
  | nil => rfl
  | cons c word ih =>
    cases text with
    | nil =>
      cases u with
      | nil => rfl
      | cons d u =>
        have hd : c ≠ d := by
          rintro rfl
          simp at hu
        simp [List.isPrefixOf, hd]
    | cons d text =>
      have hword : u.head?.any (· ∈ word) = false := by
        cases u with
        | nil => rfl
        | cons d u =>
          simp only [List.head?_cons, Option.any_some, List.mem_cons, decide_eq_false_iff_not,
            not_or] at hu ⊢
          exact hu.2
      rw [List.cons_append, List.isPrefixOf_cons_cons, List.isPrefixOf_cons_cons, ih text hword]

/-- No blank and none of the marks that close or separate is in the word. -/
def isOpening (word : String) : Bool :=
  [' ', '\t', ')', ']', '}', ',', ':'].all fun c => c ∉ word.toList

namespace EndsExpr

theorem of_near {u' : List Char} (h : EndsExpr u) (hnear : Near u u') : EndsExpr u' := by
  unfold EndsExpr
  rw [hnear]
  exact h

theorem head?_opening {word : String} (h : EndsExpr u) (hword : isOpening word) :
    u.head?.any (· ∈ word.toList) = false := by
  simp only [isOpening, List.all_cons, Bool.and_eq_true, decide_eq_true_eq] at hword
  obtain ⟨hspace, htab, hparen, hbracket, hbrace, hcomma, hcolon, -⟩ := hword
  exact h.head? (decide_eq_false hspace) (decide_eq_false htab)
    (by simp [hparen, hbracket, hbrace, hcomma, hcolon])

end EndsExpr

/-- The second text is the first one, and goes on with `u`, blanks in front of it aside. -/
def GoesOn (u text text' : List Char) : Prop :=
  ∃ u', EndsExpr u' ∧ Near u u' ∧ text' = text ++ u'

namespace GoesOn

variable {text' : List Char}

theorem of_ends (hu : EndsExpr u) (text : List Char) : GoesOn u text (text ++ u) :=
  ⟨u, hu, .refl u, rfl⟩

theorem dropWhile (h : GoesOn u text text') :
    GoesOn u (text.dropWhile isBlank) (text'.dropWhile isBlank) := by
  obtain ⟨u', hu', hnear, rfl⟩ := h
  rw [List.dropWhile_append]
  cases hblank : (text.dropWhile isBlank).isEmpty with
  | true =>
    rw [List.isEmpty_iff.mp hblank, if_pos rfl]
    have hdrop := near_dropWhile (t := u') _ rfl
    exact ⟨_, hu'.of_near hdrop, hdrop.trans hnear, rfl⟩
  | false => exact ⟨u', hu', hnear, rfl⟩

theorem drop {n : Nat} (h : GoesOn u text text') (hn : n ≤ text.length) :
    GoesOn u (text.drop n) (text'.drop n) := by
  obtain ⟨u', hu', hnear, rfl⟩ := h
  exact ⟨u', hu', hnear, List.drop_append_of_le_length hn⟩

theorem near (h : GoesOn u [] text') : Near u text' := by
  obtain ⟨u', -, hnear, rfl⟩ := h
  exact hnear

end GoesOn

namespace Parser

variable {α β γ δ : Type}

/-! ## Rules on texts that go on -/

/-- Where `p` reads the text, `q` reads the same if the text goes on. What is the same is told by
`key`. -/
def Extends (u text : List Char) (p q : Parser α) (key : α → γ) : Prop :=
  ∀ c a c', c.rest = text → p.run c = .ok (a, c') →
    Reads q (GoesOn u text) (fun b => key b = key a) (GoesOn u c'.rest)

/-- The rule reads no text that is `text`. -/
def FailsOn (text : List Char) (p : Parser α) : Prop :=
  ∀ c r, c.rest = text → p.run c ≠ .ok r

namespace FailsOn

variable {p : Parser α} {f : α → Parser β}

theorem throw {e : SyntaxError} : FailsOn text (throw e : Parser α) := nofun

theorem bind (h : FailsOn text p) : FailsOn text (p >>= f) := by
  rintro c ⟨b, c'⟩ hc run
  obtain ⟨a, c₁, run₁, -⟩ := run_bind_eq_ok_iff.mp run
  exact h c (a, c₁) hc run₁

/-- What is read is known, and what follows fails there. -/
theorem bind_of_reads {result : α → Prop} {after : List Char → Prop}
    (h : Reads p (· = text) result after)
    (hf : ∀ a text', result a → after text' → FailsOn text' (f a)) : FailsOn text (p >>= f) := by
  rintro c ⟨b, c'⟩ hc run
  obtain ⟨a, c₁, run₁, run₂⟩ := run_bind_eq_ok_iff.mp run
  obtain ⟨a', c₂, run', ha, hc₂⟩ := h c hc
  cases run₁.symm.trans run'
  exact hf a c₁.rest ha hc₂ c₁ _ rfl run₂

theorem skipBlanks_bind {f : Unit → Parser β} (h : FailsOn (text.dropWhile isBlank) (f ())) :
    FailsOn text (skipBlanks >>= f) := by
  refine bind_of_reads reads_skipBlanks.at_of_near ?_
  rintro - _ - rfl
  exact h

theorem offset_bind {f : Nat → Parser β} (h : ∀ n, FailsOn text (f n)) :
    FailsOn text (offset >>= f) := by
  refine bind_of_reads reads_offset ?_
  rintro n _ - rfl
  exact h n

theorem rest_bind {f : List Char → Parser β} (h : FailsOn text (f text)) :
    FailsOn text (rest >>= f) := by
  refine bind_of_reads reads_rest ?_
  rintro _ _ rfl rfl
  exact h

end FailsOn

namespace Extends

variable {p q : Parser α} {f g : α → Parser β} {key : α → γ} {key' : β → δ}

theorem pure {a b : α} (hkey : key b = key a) : Extends u text (pure a) (pure b) key := by
  intro c a' c' hc run
  cases run
  subst hc
  exact .pure hkey

theorem of_fails (h : FailsOn text p) : Extends u text p q key :=
  fun c a c' hc run => absurd run (h c (a, c') hc)

theorem throw {e : SyntaxError} : Extends u text (throw e) q key := of_fails .throw

theorem bind (hp : Extends u text p q key)
    (hf : ∀ a b rest, key b = key a → Extends u rest (f a) (g b) key') :
    Extends u text (p >>= f) (q >>= g) key' := by
  intro c x c'' hc run
  obtain ⟨a, c', run₁, run₂⟩ := run_bind_eq_ok_iff.mp run
  exact (hp c a c' hc run₁).bind fun b hb => hf a b c'.rest hb c' x c'' rfl run₂

/-- Places and indices make no difference to what is read. -/
theorem still_bind {result result' : α → Prop} (hp : Still p result) (hq : Still q result')
    (hf : ∀ a b, result a → result' b → Extends u text (f a) (g b) key') :
    Extends u text (p >>= f) (q >>= g) key' := by
  intro c x c'' hc run d hd
  obtain ⟨a, c', run₁, ha, hrest, -⟩ := hp c
  obtain ⟨a', c₁, run', run₂⟩ := run_bind_eq_ok_iff.mp run
  cases run₁.symm.trans run'
  obtain ⟨b, d', run₃, hb, hd', -⟩ := hq d
  obtain ⟨y, d'', run₄, hy, hd''⟩ :=
    hf a b ha hb c' x c'' (hrest.trans hc) run₂ d' (hd'.symm ▸ hd)
  exact ⟨y, d'', run_bind_eq_ok_iff.mpr ⟨b, d', run₃, run₄⟩, hy, hd''⟩

theorem rest_bind {f g : List Char → Parser β}
    (h : ∀ u', EndsExpr u' → Extends u text (f text) (g (text ++ u')) key') :
    Extends u text (rest >>= f) (rest >>= g) key' := by
  rintro c x c'' hc run d ⟨u', hu', hnear, hd⟩
  subst hc
  obtain ⟨y, d', run', hy, hd'⟩ := h u' hu' c x c'' rfl run d ⟨u', hu', hnear, hd⟩
  rw [← hd] at run'
  exact ⟨y, d', run', hy, hd'⟩

theorem skip_bind {f g : Unit → Parser β} {n : Nat} (hn : n ≤ text.length)
    (h : Extends u (text.drop n) (f ()) (g ()) key') :
    Extends u text (skip n >>= f) (skip n >>= g) key' := by
  rintro c x c'' hc run d hd
  subst hc
  exact h (c.advance n) x c'' rfl run (d.advance n) (hd.drop hn)

/-- The first character is passed. -/
theorem skip_one_bind {f g : Unit → Parser β} {c : Char}
    (h : Extends u text (f ()) (g ()) key') :
    Extends u (c :: text) (skip 1 >>= f) (skip 1 >>= g) key' :=
  skip_bind (Nat.le_add_left 1 _) h

theorem blanks_bind {f g : Unit → Parser β}
    (h : Extends u (text.dropWhile isBlank) (f ()) (g ()) key') :
    Extends u text (skipBlanks >>= f) (skipBlanks >>= g) key' := by
  rintro c x c'' hc run d hd
  subst hc
  have blanks (c : Cursor) : (c.advance (c.rest.takeWhile isBlank).length).rest =
      c.rest.dropWhile isBlank := drop_length_takeWhile isBlank c.rest
  exact h (c.advance (c.rest.takeWhile isBlank).length) x c'' (blanks c) run
    (d.advance (d.rest.takeWhile isBlank).length) (blanks d ▸ hd.dropWhile)

/-- How most rules begin: past the blanks, where the span of what they read begins. -/
theorem start_bind {f g : Nat → Parser β}
    (h : ∀ start start', Extends u (text.dropWhile isBlank) (f start) (g start') key') :
    Extends u text (do
      skipBlanks
      f (← offset)) (do
      skipBlanks
      g (← offset)) key' :=
  blanks_bind (still_bind still_offset still_offset fun start start' _ _ => h start start')

/-! ## Marks -/

/-- A mark that is missing is missing where the text goes on, or else the rule fails without it. -/
theorem eat_bind_or {token : String} {f g : Bool → Parser β}
    (found : ∀ rest, text.dropWhile isBlank = token.toList ++ rest →
      Extends u rest (f true) (g true) key')
    (missing : token.toList.isPrefixOf (text.dropWhile isBlank) = false →
      FailsOn (text.dropWhile isBlank) (f false) ∨
      (∀ u', EndsExpr u' → token.toList.isPrefixOf (text.dropWhile isBlank ++ u') = false) ∧
        Extends u (text.dropWhile isBlank) (f false) (g false) key') :
    Extends u text (eat token >>= f) (eat token >>= g) key' := by
  simp only [eat, bind_assoc]
  refine blanks_bind ?_
  generalize text.dropWhile isBlank = chars at found missing
  cases hfound : token.toList.isPrefixOf chars with
  | true =>
    obtain ⟨rest, rfl⟩ := List.isPrefixOf_iff_prefix.mp hfound
    refine rest_bind fun u' _ => ?_
    have hlonger : token.toList.isPrefixOf (token.toList ++ rest ++ u') = true := by
      rw [List.isPrefixOf_iff_prefix, List.append_assoc]
      exact List.prefix_append _ _
    rw [if_pos hfound, if_pos hlonger, bind_assoc, bind_assoc]
    refine skip_bind ?_ ?_
    · rw [List.length_append, String.length_toList]
      exact Nat.le_add_right _ _
    · rw [← String.length_toList, List.drop_left, pure_bind, pure_bind]
      exact found rest rfl
  | false =>
    rcases missing hfound with hfails | ⟨hmissing, h⟩
    · refine of_fails (.rest_bind ?_)
      rw [if_neg (Bool.eq_false_iff.mp hfound), pure_bind]
      exact hfails
    · refine rest_bind fun u' hu' => ?_
      rw [if_neg (Bool.eq_false_iff.mp hfound), if_neg (Bool.eq_false_iff.mp (hmissing u' hu')),
        pure_bind, pure_bind]
      exact h

theorem eat_bind {token : String} {f g : Bool → Parser β} (htoken : isOpening token)
    (found : ∀ rest, text.dropWhile isBlank = token.toList ++ rest →
      Extends u rest (f true) (g true) key')
    (missing : Extends u (text.dropWhile isBlank) (f false) (g false) key') :
    Extends u text (eat token >>= f) (eat token >>= g) key' := by
  refine eat_bind_or found fun hmissing => .inr ⟨fun u' hu' => ?_, missing⟩
  rw [isPrefixOf_append _ (hu'.head?_opening htoken), hmissing]

/-- A closing mark may be what the text goes on with, so without it the rule has to fail at the end
of the text. -/
theorem eat_close_bind {token : String} {mark : Char} {f g : Bool → Parser β}
    (htoken : token.toList = [mark])
    (found : ∀ rest, text.dropWhile isBlank = token.toList ++ rest →
      Extends u rest (f true) (g true) key')
    (missing : Extends u (text.dropWhile isBlank) (f false) (g false) key')
    (ends : FailsOn [] (f false)) :
    Extends u text (eat token >>= f) (eat token >>= g) key' := by
  refine eat_bind_or found fun hmissing => ?_
  cases htext : text.dropWhile isBlank with
  | nil => exact .inl ends
  | cons c chars =>
    rw [htext] at hmissing missing
    refine .inr ⟨fun u' _ => ?_, missing⟩
    rw [htoken] at hmissing ⊢
    simpa [List.isPrefixOf] using hmissing

theorem failsOn_expect {token : String}
    (h : token.toList.isPrefixOf (text.dropWhile isBlank) = false) :
    FailsOn text (expect token) := by
  rintro c ⟨⟨⟩, c'⟩ hc run
  obtain ⟨found, c₁, run₁, run₂⟩ := run_bind_eq_ok_iff.mp run
  obtain ⟨a, c₂, run', rfl, -⟩ := reads_eat_not token h c (hc ▸ Near.refl _)
  cases run₁.symm.trans run'
  cases run₂

theorem expect_bind {token : String} {f g : Unit → Parser β}
    (h : ∀ rest, text.dropWhile isBlank = token.toList ++ rest →
      Extends u rest (f ()) (g ()) key') :
    Extends u text (expect token >>= f) (expect token >>= g) key' := by
  simp only [expect, bind_assoc]
  refine eat_bind_or (fun rest hrest => ?_) fun hmissing => .inl ?_
  · exact h rest hrest
  · refine FailsOn.bind ?_
    exact FailsOn.bind_of_reads reads_column fun _ _ _ _ => .throw

/-! ## Words -/

theorem keyword_bind {word : String} {f g : Bool → Parser β} (hword : isOpening word)
    (found : word.toList <+: text → Extends u text (f true) (g true) key')
    (missing : Extends u text (f false) (g false) key') :
    Extends u text (atKeyword word >>= f) (atKeyword word >>= g) key' := by
  simp only [atKeyword, bind_assoc]
  refine rest_bind fun u' hu' => ?_
  rw [pure_bind, pure_bind, isPrefixOf_append _ (hu'.head?_opening hword)]
  cases hfound : word.toList.isPrefixOf text with
  | false => exact missing
  | true =>
    have hprefix := List.isPrefixOf_iff_prefix.mp hfound
    have hlength : word.length ≤ text.length := by
      rw [← String.length_toList]
      exact hprefix.length_le
    rw [List.drop_append_of_le_length hlength, head?_any_append _ hu'.stopsName]
    cases (text.drop word.length).head?.any isNameChar with
    | false => exact found hprefix
    | true => exact missing

end Extends

theorem extends_name? : Extends u text name? name? (Option.map NameAt.name) := by
  refine .start_bind fun start start' => .rest_bind fun u' hu' => ?_
  have hstart : u'.head?.any isNameStart = false := hu'.head? rfl rfl rfl
  rw [head?_any_append _ hstart, takeWhile_append_left _ hu'.stopsName]
  split
  · refine .skip_bind (List.takeWhile_prefix _).length_le ?_
    exact .still_bind (still_spanFrom start) (still_spanFrom start') fun _ _ _ _ => .pure rfl
  · exact .pure rfl

end Parser

end Preflight
