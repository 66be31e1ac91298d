import Preflight.Proofs.Layout.Regions
import Preflight.Proofs.Parser.RetraceOperands

/-! # Regions behind the cursor

While a line is read, the regions that were read stand between the place where a node begins and
the cursor. -/

namespace Preflight
set_option autoImplicit false

variable {line : List Char} {fit : List Char → Expr → Prop}

namespace Cursor

/-- The cursor stands in the line. -/
def At (line : List Char) (c : Cursor) : Prop :=
  ∃ before, line = before ++ c.rest ∧ c.offset = utf8Length before

/-- The regions stand between `start` and the cursor, and at most `n` characters are left. -/
structure Behind (line : List Char) (fit : List Char → Expr → Prop) (start : Nat)
    (rs : List Region) (n : Nat) (c : Cursor) : Prop where
  stands : c.At line
  placed : Placed line fit start c.offset rs
  room : c.rest.length ≤ n

variable {c c' : Cursor} {t : List Char}

theorem At.passes (h : c.At line) (pass : c.Passes t c') : c'.At line := by
  obtain ⟨before, hline, hoffset⟩ := h
  refine ⟨before ++ t, ?_, ?_⟩
  · rw [hline, pass.rest, List.append_assoc]
  · rw [pass.offset, hoffset, utf8Length_append]

theorem At.covers (h : c.At line) (hline : '\n' ∉ line) (pass : c.Passes t c') :
    (Span.inLine c.offset c'.offset).Covers line t := by
  obtain ⟨before, hbefore, hoffset⟩ := h
  refine ⟨before, c'.rest, by rw [hbefore, pass.rest], ?_⟩
  have hnot : '\n' ∉ before := fun hmem => hline (hbefore ▸ List.mem_append_left _ hmem)
  rw [Position.past_eq_of_notMem hnot, pass.offset, hoffset, Span.inLine]
  simp only [Nat.zero_add]

end Cursor

/-- A quote stands at `start`, and another one right before the cursor. -/
def Cursor.Quoted (line : List Char) (start : Nat) (c : Cursor) : Prop :=
  ∃ before v, line = before ++ '\'' :: (v ++ '\'' :: c.rest) ∧ utf8Length before = start

/-- The node of the tree spans what stands between `start` and the cursor, and its parts are laid
there. -/
structure Cursor.Frames (line : List Char) (fit : List Char → Expr → Prop) (start n : Nat)
    (e : Expr) (c : Cursor) : Prop where
  stands : c.At line
  span : e.span = .inLine start c.offset
  parts : Placed line fit start c.offset e.regions
  quoted : e.isString = true → c.Quoted line start
  room : c.rest.length ≤ n

theorem Cursor.Behind.weaken {c : Cursor} {start n m : Nat} {rs : List Region}
    (h : c.Behind line fit start rs n) (hm : n ≤ m) : c.Behind line fit start rs m :=
  { h with room := h.room.trans hm }

theorem Cursor.Behind.left {c : Cursor} {start n : Nat} {rs rs' : List Region}
    (h : c.Behind line fit start (rs ++ rs') n) : c.Behind line fit start rs n :=
  { h with placed := h.placed.left }

/-- What is laid from the cursor on is laid behind what stands there before. -/
theorem Cursor.Behind.append {c c' : Cursor} {start n m : Nat} {rs rs' : List Region}
    (h : c.Behind line fit start rs n) (h' : c'.Behind line fit c.offset rs' m) :
    c'.Behind line fit start (rs ++ rs') m :=
  ⟨h'.stands, h.placed.append h'.placed, h'.room⟩

/-- A region that was read between two cursors is laid between them. -/
theorem Placed.of_passes {c c' : Cursor} {t : List Char} {r : Region} (hline : '\n' ∉ line)
    (hc : c.At line) (pass : c.Passes t c') (hspan : r.span = .inLine c.offset c'.offset)
    (hfit : r.Fits fit t) (parts : Placed line fit c.offset c'.offset r.parts) :
    Placed line fit c.offset c'.offset [r] := by
  have hstart : c.offset = r.span.start := by rw [hspan]; rfl
  have hstop : c'.offset = r.span.stop := by rw [hspan]; rfl
  have covers := hc.covers hline pass
  rw [← hspan] at covers
  rw [hstart, hstop] at parts ⊢
  exact .single covers hfit parts

theorem Cursor.Frames.weaken {c : Cursor} {start n m : Nat} {e : Expr}
    (h : c.Frames line fit start n e) (hm : n ≤ m) : c.Frames line fit start m e :=
  { h with room := h.room.trans hm }

theorem Cursor.Quoted.of_passes {c c' : Cursor} {t : List Char} (h : c'.Quoted line c.offset)
    (hc : c.At line) (pass : c.Passes t c') : ∃ v, t = '\'' :: (v ++ ['\'']) := by
  obtain ⟨front, hfront, hoffset⟩ := hc
  obtain ⟨before, v, hbefore, hlength⟩ := h
  have h₁ := splitBytes?_eq_some_iff.mpr ⟨hfront, hoffset.symm⟩
  have h₂ := splitBytes?_eq_some_iff.mpr ⟨hbefore, hlength⟩
  have hrest : c.rest = '\'' :: (v ++ '\'' :: c'.rest) :=
    (Prod.mk.inj (Option.some.inj (h₁.symm.trans h₂))).2
  refine ⟨v, List.append_cancel_right (pass.rest.symm.trans (hrest.trans ?_))⟩
  rw [List.cons_append, List.append_assoc, List.singleton_append]

/-- The tree is laid between the two cursors if its text fits. -/
theorem Cursor.Frames.behind {c c' : Cursor} {n : Nat} {e : Expr} {t : List Char}
    (h : c'.Frames line fit c.offset n e) (hline : '\n' ∉ line) (hc : c.At line)
    (pass : c.Passes t c') (hfit : fit t e) : c'.Behind line fit c.offset [.expr e] n :=
  ⟨h.stands, .of_passes hline hc pass h.span hfit h.parts, h.room⟩

/-- Between two places of a line a text stands. -/
theorem Cursor.At.exists_covers {c c' : Cursor} (hline : '\n' ∉ line) (hc : c.At line)
    (hc' : c'.At line) (hle : c.offset ≤ c'.offset) :
    ∃ w, (Span.inLine c.offset c'.offset).Covers line w := by
  obtain ⟨before, hbefore, hoffset⟩ := hc
  obtain ⟨before', hbefore', hoffset'⟩ := hc'
  have hfront : before <+: before' := by
    rcases List.prefix_or_prefix_of_prefix (hbefore ▸ List.prefix_append before c.rest)
      (hbefore' ▸ List.prefix_append before' c'.rest) with h | ⟨w, rfl⟩
    · exact h
    · rw [hoffset, hoffset', utf8Length_append] at hle
      cases w with
      | nil => exact ⟨[], by simp⟩
      | cons d w =>
        have hpos := d.utf8Size_pos
        rw [utf8Length_cons] at hle
        omega
  obtain ⟨w, rfl⟩ := hfront
  have pass : c.Passes w c' := by
    refine ⟨?_, ?_⟩
    · rw [hbefore, List.append_assoc] at hbefore'
      exact List.append_cancel_left hbefore'
    · rw [hoffset, hoffset', utf8Length_append]
  exact ⟨w, Cursor.At.covers ⟨before, hbefore, hoffset⟩ hline pass⟩

namespace Parser

variable {α β γ : Type} {n start : Nat} {rs : List Region} {p : Parser α}

/-- Every run passes a text, of `least` characters at least. -/
def Moves (n : Nat) (p : Parser α) (least : α → Nat) : Prop :=
  ∀ c a c', c.rest.length ≤ n → p.run c = .ok (a, c') → ∃ t, c.Passes t c' ∧ least a ≤ t.length

/-- Every run lays the regions of what it returns behind those that stand there already. -/
def Lays (line : List Char) (fit : List Char → Expr → Prop) (n : Nat) (p : Parser α)
    (regions : α → List Region) : Prop :=
  ∀ start rs, Ensures (Cursor.Behind line fit start rs n) p fun a =>
    Cursor.Behind line fit start (rs ++ regions a) n

theorem Retraces.moves {q : Parser α} {key : α → γ} {passed : List Char → α → List Char → Prop}
    {least : α → Nat} (h : ∀ text, text.length ≤ n → Retraces text 0 p q key (passed text))
    (hleast : ∀ text a t, passed text a t → least a ≤ t.length) : Moves n p least := by
  intro c a c' hc run
  obtain ⟨t, pass, ha, -⟩ := h c.rest hc c a c' rfl run
  exact ⟨t, pass, hleast _ a t ha⟩

theorem Moves.behind {least : α → Nat} (h : Moves n p least) :
    Ensures (Cursor.Behind line fit start rs n) p fun a =>
      Cursor.Behind line fit start rs (n - least a) := by
  intro c hc a c' run
  obtain ⟨t, pass, ht⟩ := h c a c' hc.room run
  have hroom := hc.room
  rw [pass.rest, List.length_append] at hroom
  refine ⟨hc.stands.passes pass, hc.placed.extend ?_, by omega⟩
  rw [pass.offset]
  exact Nat.le_add_right _ _

theorem Lays.behind {m : Nat} {regions : α → List Region} (h : Lays line fit n p regions)
    (hm : m ≤ n) : Ensures (Cursor.Behind line fit start rs m) p fun a =>
      Cursor.Behind line fit start (rs ++ regions a) n :=
  (h start rs).imp (fun _ hc => { hc with room := hc.room.trans hm }) fun _ _ => id

/-! ## Tokens -/

theorem moves_skipBlanks : Moves n skipBlanks fun _ => 0 :=
  Retraces.moves (fun _ _ => retraces_skipBlanks) fun _ _ _ _ => Nat.zero_le _

theorem moves_eat (token : String) (htoken : 1 ≤ token.toList.length) :
    Moves n (eat token) fun found => if found then 1 else 0 := by
  refine Retraces.moves (fun _ _ => retraces_eat token) ?_
  rintro text found t ⟨rfl, -⟩
  cases found with
  | true =>
    rw [if_pos rfl, if_pos rfl, List.length_append]
    exact Nat.le_add_left_of_le htoken
  | false => exact Nat.zero_le _

theorem moves_expect (token : String) (htoken : 1 ≤ token.toList.length) :
    Moves n (expect token) fun _ => 1 := by
  refine Retraces.moves (fun _ _ => retraces_expect token htoken) ?_
  rintro text - t ⟨rfl, -⟩
  rw [List.length_append]
  exact Nat.le_add_left_of_le htoken

theorem Moves.of_still {result : α → Prop} (h : Still p result) : Moves n p fun _ => 0 := by
  intro c a c' _ run
  obtain ⟨a', c₁, run', -, hrest, hoffset⟩ := h c
  cases run'.symm.trans run
  exact ⟨[], .of_still hrest hoffset, Nat.zero_le _⟩

end Parser

def NameAt.region (v : NameAt) : Region := .name v.span v.name

namespace Parser

variable {n start : Nat} {rs : List Region}

/-- A name stands where it was read, with nothing around it. -/
theorem behind_name? (hline : '\n' ∉ line) :
    Ensures (Cursor.Behind line fit start rs n) name? fun v c => (∀ x ∈ v, isName x.name) ∧
      c.Behind line fit start (rs ++ v.toList.map NameAt.region) (n - v.toList.length) := by
  refine moves_skipBlanks.behind.bind fun _ => ?_
  rintro c hc v c' run
  change (if c.rest.head?.any isNameStart = true then _ else _ : Parser _).run c = _ at run
  split at run
  next head =>
    have pass := Cursor.Passes.advance c (c.rest.takeWhile isNameChar).length
    rw [take_length_takeWhile] at pass
    cases run
    obtain ⟨d, cs, hcons, -, -⟩ := exists_cons_of_isName (isName_takeWhile head)
    rw [String.toList_ofList] at hcons
    have hpos : 1 ≤ (c.rest.takeWhile isNameChar).length := by simp [hcons]
    have hroom := hc.room
    rw [pass.rest, List.length_append] at hroom
    refine ⟨fun x hx => Option.mem_some.mp hx ▸ isName_takeWhile head, hc.stands.passes pass,
      hc.placed.append (.of_passes hline hc.stands pass rfl ?_ ?_), ?_⟩
    · exact String.toList_ofList.symm
    · exact .nil (pass.offset ▸ Nat.le_add_right _ _)
    · show (c.advance (c.rest.takeWhile isNameChar).length).rest.length ≤ n - 0 - 1
      omega
  next =>
    cases run
    rw [Option.toList_none, List.map_nil, List.append_nil]
    exact ⟨nofun, hc⟩

end Parser

end Preflight
