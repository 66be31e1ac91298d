import Preflight.Proofs.Layout.Lines

/-! # Excerpts

The line that a place of a text is on, and where on it the place is seen. -/

namespace Preflight
set_option autoImplicit false

/-- A line begins behind the text. -/
def BeginsLine (before : List Char) : Prop := before = [] ∨ before.getLast? = some '\n'

/-- The line of the text with this number, counted from one. A carriage return right before the
line feed is no part of it. -/
def IsLine (text : List Char) (number : Nat) (line : List Char) : Prop :=
  ∃ before after, text = before ++ (line ++ after) ∧ BeginsLine before ∧
    before.count '\n' + 1 = number ∧ '\n' ∉ line ∧
    (after = [] ∨ (∃ rest, after = '\n' :: rest ∧ line.getLast? ≠ some '\r') ∨
      ∃ rest, after = '\r' :: '\n' :: rest)

namespace BeginsLine

variable {before : List Char}

theorem bytes_eq_zero (h : BeginsLine before) : (Position.past {} before).bytes = 0 := by
  rcases h with rfl | h
  · rfl
  · obtain ⟨front, rfl⟩ := List.getLast?_eq_some_iff.mp h
    rw [Position.past_append]
    rfl

theorem of_bytes_eq_zero (h : (Position.past {} before).bytes = 0) : BeginsLine before := by
  rcases List.eq_nil_or_concat before with rfl | ⟨front, c, rfl⟩
  · exact .inl rfl
  · rw [List.concat_eq_append, Position.past_append, Position.past] at h
    split at h
    next hc =>
      subst hc
      exact .inr (by simp)
    next =>
      have := c.utf8Size_pos
      change _ + c.utf8Size = 0 at h
      omega

theorem endsInReturn (h : BeginsLine before) : LineRange.endsInReturn false before = false := by
  rcases h with rfl | h
  · rfl
  · rw [LineRange.endsInReturn, h]
    rfl

end BeginsLine

theorem Position.lines_past (p : Position) (text : List Char) :
    (p.past text).lines = p.lines + text.count '\n' := by
  induction text generalizing p with
  | nil => rfl
  | cons c text ih =>
    rw [past, ih, List.count_cons]
    split
    next hc =>
      subst hc
      simp only [BEq.rfl, if_true]
      omega
    next hc => simp [hc]

namespace LineRange

theorem endsInReturn_eq_false {text : List Char} (h : text.getLast? ≠ some '\r') :
    endsInReturn false text = false := by
  unfold endsInReturn
  cases hlast : text.getLast? with
  | none => rfl
  | some c =>
    rw [hlast] at h
    exact beq_eq_false_iff_ne.mpr fun hc => h (congrArg some hc)

variable {start offset : Nat} {afterReturn : Bool} {line : List Char}

theorem table_open (h : '\n' ∉ line) :
    table start offset afterReturn line = [⟨start, offset + utf8Length line⟩] := by
  induction line generalizing offset afterReturn with
  | nil => rfl
  | cons c line ih =>
    rw [List.mem_cons, not_or] at h
    rw [table, if_neg (Ne.symm h.1), ih h.2, utf8Length_cons, Nat.add_assoc]

theorem table_line (h : '\n' ∉ line) (rest : List Char) :
    table start offset afterReturn (line ++ '\n' :: rest) =
      ⟨start, if endsInReturn afterReturn line then offset + utf8Length line - 1
        else offset + utf8Length line⟩ ::
        table (offset + utf8Length line + 1) (offset + utf8Length line + 1) false rest := by
  induction line generalizing offset afterReturn with
  | nil => rfl
  | cons c line ih =>
    rw [List.mem_cons, not_or] at h
    rw [List.cons_append, table, if_neg (Ne.symm h.1), endsInReturn_cons, utf8Length_cons,
      ← Nat.add_assoc]
    exact ih h.2

end LineRange

/-- The line table finds every line of the text. -/
theorem IsLine.line_eq {source : Source} {number : Nat} {line : List Char}
    (h : IsLine source.contents.toList number line) :
    source.line (number - 1) = .ofList line := by
  obtain ⟨before, after, htext, hbegins, rfl, hline, hafter⟩ := h
  obtain ⟨finished, hlength, hlines⟩ := Source.lines_eq htext rfl
  have hoffset : (Position.past {} before).offset = utf8Length before := by
    rw [Position.offset_past, Nat.zero_add]
  have hnumber : finished.length = before.count '\n' := by
    rw [hlength, Position.lines_past, Nat.zero_add]
  rw [hbegins.bytes_eq_zero, hbegins.endsInReturn, Nat.sub_zero, hoffset] at hlines
  have hrange : ∃ ranges, LineRange.table (utf8Length before) (utf8Length before) false
      (line ++ after) = ⟨utf8Length before, utf8Length before + utf8Length line⟩ :: ranges := by
    rcases hafter with rfl | ⟨rest, rfl, hlast⟩ | ⟨rest, rfl⟩
    · rw [List.append_nil]
      exact ⟨[], LineRange.table_open hline⟩
    · rw [LineRange.table_line hline rest, LineRange.endsInReturn_eq_false hlast]
      exact ⟨_, rfl⟩
    · have hreturn : '\n' ∉ line ++ ['\r'] := by simp [hline]
      have hends : LineRange.endsInReturn false (line ++ ['\r']) = true := by
        simp [LineRange.endsInReturn]
      have htable : LineRange.table (utf8Length before) (utf8Length before) false
          (line ++ ['\r'] ++ '\n' :: rest) = _ := LineRange.table_line hreturn rest
      rw [hends, if_pos rfl, utf8Length_append, List.append_assoc] at htable
      exact ⟨_, htable⟩
  obtain ⟨ranges, hrange⟩ := hrange
  rw [hrange] at hlines
  rw [Source.line, hlines, Nat.add_sub_cancel, ← hnumber,
    List.getElem?_append_right (Nat.le_refl _), Nat.sub_self, List.getElem?_cons_zero]
  exact Source.slice_eq htext rfl rfl

/-- How far a line goes on, that would not end in a carriage return of its own. -/
theorem exists_lineEnd (text : List Char) : ∃ more after, text = more ++ after ∧ '\n' ∉ more ∧
    (after = [] ∨ (∃ rest, after = '\n' :: rest ∧ more.getLast? ≠ some '\r') ∨
      ∃ rest, after = '\r' :: '\n' :: rest) := by
  induction text with
  | nil => exact ⟨[], [], rfl, List.not_mem_nil, .inl rfl⟩
  | cons c text ih =>
    by_cases hc : c = '\n'
    · subst hc
      exact ⟨[], _, rfl, List.not_mem_nil, .inr (.inl ⟨text, rfl, nofun⟩)⟩
    · obtain ⟨more, after, rfl, hmore, hafter⟩ := ih
      have hcons : '\n' ∉ c :: more := by simp [Ne.symm hc, hmore]
      rcases hafter with rfl | ⟨rest, rfl, hlast⟩ | ⟨rest, rfl⟩
      · exact ⟨c :: more, [], rfl, hcons, .inl rfl⟩
      · cases more with
        | nil =>
          by_cases hreturn : c = '\r'
          · subst hreturn
            exact ⟨[], _, rfl, List.not_mem_nil, .inr (.inr ⟨rest, rfl⟩)⟩
          · refine ⟨[c], _, rfl, hcons, .inr (.inl ⟨rest, rfl, ?_⟩)⟩
            simpa using hreturn
        | cons d more =>
          refine ⟨c :: d :: more, _, rfl, hcons, .inr (.inl ⟨rest, rfl, ?_⟩)⟩
          rwa [List.getLast?_cons_cons]
      · exact ⟨c :: more, _, rfl, hcons, .inr (.inr ⟨rest, rfl⟩)⟩

/-- On its line, the place has only characters of one byte before it, and the line goes on with
something that is not a carriage return at its end. -/
def Span.Seen (text : List Char) (s : Span) : Prop :=
  ∃ before front seen rest, text = before ++ (front ++ (seen ++ rest)) ∧ BeginsLine before ∧
    s.start = utf8Length (before ++ front) ∧ '\n' ∉ front ∧ (∀ c ∈ front, c.utf8Size = 1) ∧
    '\n' ∉ seen ∧ seen ≠ [] ∧ seen.getLast? ≠ some '\r'

theorem utf8Length_eq_length {text : List Char} (h : ∀ c ∈ text, c.utf8Size = 1) :
    utf8Length text = text.length := by
  induction text with
  | nil => rfl
  | cons c text ih =>
    rw [List.forall_mem_cons] at h
    rw [utf8Length_cons, h.1, ih h.2, List.length_cons, Nat.add_comm]

namespace Span.Seen

variable {text w : List Char} {s : Span}

theorem append_text (h : s.Seen text) (more : List Char) : s.Seen (text ++ more) := by
  obtain ⟨before, front, seen, rest, rfl, h⟩ := h
  exact ⟨before, front, seen, rest ++ more, by simp only [List.append_assoc], h⟩

/-- The column of the place counts the characters of the line that stand before it. -/
theorem exists_line (h : s.Seen text) (covers : s.Covers text w) (hw : w ≠ []) :
    ∃ excerpt, IsLine text s.line excerpt ∧ excerpt[s.column - 1]? = w.head? := by
  obtain ⟨before, front, seen, rest, htext, hbegins, hstart, hfront, hsizes, hseen, hne, hlast⟩ := h
  obtain ⟨more, after, rfl, hmore, hafter⟩ := exists_lineEnd rest
  obtain ⟨start, behind, htext', rfl⟩ := covers
  have hsame : start = before ++ front ∧ w ++ behind = seen ++ (more ++ after) := by
    have hlength : utf8Length (before ++ front) = utf8Length start := by
      rw [← hstart]
      show (Position.past {} start).offset = _
      rw [Position.offset_past, Nat.zero_add]
    rw [← List.append_assoc] at htext
    have h₁ := splitBytes?_eq_some_iff.mpr ⟨htext', rfl⟩
    have h₂ := splitBytes?_eq_some_iff.mpr ⟨htext, hlength⟩
    exact Prod.mk.inj (Option.some.inj (h₁.symm.trans h₂))
  obtain ⟨rfl, hrest⟩ := hsame
  have hline : '\n' ∉ front ++ (seen ++ more) := by simp [hfront, hseen, hmore]
  refine ⟨front ++ (seen ++ more), ⟨before, after, ?_, hbegins, ?_, hline, ?_⟩, ?_⟩
  · rw [htext]
    simp only [List.append_assoc]
  · show _ = (Position.past {} (before ++ front)).lines + 1
    rw [Position.lines_past, List.count_append, List.count_eq_zero.mpr hfront, Nat.zero_add,
      Nat.add_zero]
  · refine hafter.imp_right (Or.imp_left ?_)
    rintro ⟨rest, rfl, hlast'⟩
    refine ⟨rest, rfl, ?_⟩
    rcases List.eq_nil_or_concat more with rfl | ⟨_, c, rfl⟩
    · obtain ⟨d, hd⟩ := Option.ne_none_iff_exists'.mp (mt List.getLast?_eq_none_iff.mp hne)
      simpa [hd] using hlast
    · simpa using hlast'
  · have hcolumn : (Position.past {} (before ++ front)).bytes = front.length := by
      rw [Position.past_append, Position.past_eq_of_notMem hfront, hbegins.bytes_eq_zero,
        Nat.zero_add, utf8Length_eq_length hsizes]
    show (front ++ (seen ++ more))[(Position.past {} (before ++ front)).bytes]? = _
    obtain ⟨c, w, rfl⟩ := List.exists_cons_of_ne_nil hw
    obtain ⟨d, seen, rfl⟩ := List.exists_cons_of_ne_nil hne
    rw [hcolumn, List.getElem?_append_right (Nat.le_refl _), Nat.sub_self]
    exact congrArg some (List.cons.inj hrest).1.symm

end Span.Seen

end Preflight
