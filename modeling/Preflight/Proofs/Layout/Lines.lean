import Preflight.Proofs.Layout.Covers

/-! # Lines of a text

The line table of a source tells where the lines begin that positions count. -/

namespace Preflight
set_option autoImplicit false

theorem utf8Length_toList (text : String) : utf8Length text.toList = text.utf8ByteSize := by
  obtain ⟨cs, rfl⟩ : ∃ cs, text = .ofList cs := ⟨text.toList, String.ofList_toList.symm⟩
  rw [String.toList_ofList]
  induction cs with
  | nil => rfl
  | cons c cs ih =>
    rw [utf8Length_cons, ih, String.ofList_cons, String.utf8ByteSize_append,
      String.utf8ByteSize_singleton]

/-- A split of a text is at a place between two characters. -/
theorem isValid_utf8Length {text : String} {before rest : List Char}
    (h : text.toList = before ++ rest) : String.Pos.Raw.IsValid text ⟨utf8Length before⟩ := by
  refine String.Pos.Raw.isValid_iff_exists_append.mpr ⟨.ofList before, .ofList rest, ?_, ?_⟩
  · rw [← String.ofList_append, ← h, String.ofList_toList]
  · show _ = String.Pos.Raw.mk (String.ofList before).utf8ByteSize
    rw [← utf8Length_toList, String.toList_ofList]

theorem isPrefix_of_utf8Length_le {s t text : List Char} (hs : s <+: text) (ht : t <+: text)
    (h : utf8Length s ≤ utf8Length t) : s <+: t := by
  rcases List.prefix_or_prefix_of_prefix hs ht with hst | ⟨w, rfl⟩
  · exact hst
  · cases w with
    | nil => simp
    | cons c w =>
      have := c.utf8Size_pos
      rw [utf8Length_append, utf8Length_cons] at h
      omega

namespace Position

theorem lines_le_past (p : Position) (t : List Char) : p.lines ≤ (p.past t).lines := by
  induction t generalizing p with
  | nil => exact Nat.le_refl _
  | cons c t ih =>
    refine Nat.le_trans ?_ (ih _)
    split
    · exact Nat.le_succ _
    · exact Nat.le_refl _

theorem lines_past_mono {s t : List Char} (p : Position) (h : s <+: t) :
    (p.past s).lines ≤ (p.past t).lines := by
  obtain ⟨w, rfl⟩ := h
  rw [past_append]
  exact lines_le_past _ w

theorem bytes_le_offset_past {p : Position} (h : p.bytes ≤ p.offset) (t : List Char) :
    (p.past t).bytes ≤ (p.past t).offset := by
  induction t generalizing p with
  | nil => exact h
  | cons c t ih =>
    refine ih ?_
    split
    · exact Nat.zero_le _
    · exact Nat.add_le_add_right h _

end Position

namespace LineRange

theorem table_eq_cons (start offset : Nat) (afterReturn : Bool) (text : List Char) :
    ∃ stop ranges, table start offset afterReturn text = ⟨start, stop⟩ :: ranges := by
  induction text generalizing offset afterReturn with
  | nil => exact ⟨_, _, rfl⟩
  | cons c text ih =>
    by_cases hc : c = '\n'
    · exact ⟨_, _, if_pos hc⟩
    · rw [table, if_neg hc]
      exact ih _ _

/-- Whether a carriage return ends the text, or came right before it if it is empty. -/
def endsInReturn (afterReturn : Bool) (text : List Char) : Bool :=
  (text.getLast?.map (· == '\r')).getD afterReturn

theorem endsInReturn_cons (afterReturn : Bool) (c : Char) (text : List Char) :
    endsInReturn afterReturn (c :: text) = endsInReturn (c == '\r') text := by
  cases text with
  | nil => rfl
  | cons d text => rw [endsInReturn, List.getLast?_cons_cons]; rfl

/-- Before the line at hand, there is a range for every line that is finished. -/
theorem table_append (p : Position) (afterReturn : Bool) (before rest : List Char) :
    ∃ finished, finished.length + p.lines = (p.past before).lines ∧
      table (p.offset - p.bytes) p.offset afterReturn (before ++ rest) =
        finished ++ table ((p.past before).offset - (p.past before).bytes) (p.past before).offset
          (endsInReturn afterReturn before) rest := by
  induction before generalizing p afterReturn with
  | nil => exact ⟨[], Nat.zero_add _, rfl⟩
  | cons c before ih =>
    rw [endsInReturn_cons]
    by_cases hc : c = '\n'
    · have hpast : p.past (c :: before) = Position.past ⟨p.lines + 1, 0, p.offset + 1⟩ before := by
        rw [Position.past, if_pos hc]
      obtain ⟨finished, hlength, htable⟩ := ih ⟨p.lines + 1, 0, p.offset + 1⟩ (c == '\r')
      let stop := if afterReturn then p.offset - 1 else p.offset
      rw [hpast]
      refine ⟨⟨p.offset - p.bytes, stop⟩ :: finished, ?_, ?_⟩
      · rw [← hlength, List.length_cons, Nat.add_right_comm]
        rfl
      · rw [List.cons_append, table, if_pos hc]
        subst hc
        exact congrArg _ htable
    · have hpast : p.past (c :: before) =
          Position.past ⟨p.lines, p.bytes + c.utf8Size, p.offset + c.utf8Size⟩ before := by
        rw [Position.past, if_neg hc]
      obtain ⟨finished, hlength, htable⟩ :=
        ih ⟨p.lines, p.bytes + c.utf8Size, p.offset + c.utf8Size⟩ (c == '\r')
      rw [Nat.add_sub_add_right] at htable
      rw [hpast]
      refine ⟨finished, hlength, ?_⟩
      rw [List.cons_append, table, if_neg hc]
      exact htable

end LineRange

namespace Span.Covers

variable {text pre w : List Char} {s : Span}

theorem one_le_line (h : s.Covers text w) : 1 ≤ s.line := by
  obtain ⟨before, after, -, rfl⟩ := h
  exact Nat.le_add_left _ _

theorem one_le_column (h : s.Covers text w) : 1 ≤ s.column := by
  obtain ⟨before, after, -, rfl⟩ := h
  exact Nat.le_add_left _ _

theorem line_le (h : s.Covers text w) : s.line ≤ (Position.past {} text).lines + 1 := by
  obtain ⟨before, after, rfl, rfl⟩ := h
  exact Nat.add_le_add_right (Position.lines_past_mono _ (List.prefix_append _ _)) 1

/-- What stands behind a text stands on its last line or further down. -/
theorem lt_line (h : s.Covers text w) (hpre : pre <+: text) (hle : utf8Length pre ≤ s.start) :
    (Position.past {} pre).lines < s.line := by
  obtain ⟨before, after, rfl, rfl⟩ := h
  have hstart : utf8Length before = (Position.past {} before).offset := by
    rw [Position.offset_past, Nat.zero_add]
  refine Nat.lt_succ_of_le (Position.lines_past_mono _ ?_)
  refine isPrefix_of_utf8Length_le hpre (List.prefix_append _ _) ?_
  rw [hstart]
  exact hle

end Span.Covers

namespace Span.Covers

variable {source : Source} {w : List Char} {s : Span}

theorem isValid_start (h : s.Covers source.contents.toList w) :
    String.Pos.Raw.IsValid source.contents ⟨s.start⟩ := by
  obtain ⟨before, after, htext, hstart⟩ := h.exists_split
  rw [← hstart]
  exact isValid_utf8Length htext

theorem isValid_stop (h : s.Covers source.contents.toList w) :
    String.Pos.Raw.IsValid source.contents ⟨s.stop⟩ := by
  obtain ⟨before, after, htext, hstart⟩ := h.exists_split
  rw [← List.append_assoc] at htext
  rw [h.stop_eq, ← hstart, ← utf8Length_append]
  exact isValid_utf8Length htext

end Span.Covers

/-- The lines before a place, and then the line that the place is on. -/
theorem Source.lines_eq {source : Source} {before rest : List Char} {p : Position}
    (htext : source.contents.toList = before ++ rest) (hp : p = Position.past {} before) :
    ∃ finished, finished.length = p.lines ∧ source.lines = finished ++
      LineRange.table (p.offset - p.bytes) p.offset (LineRange.endsInReturn false before) rest := by
  subst hp
  obtain ⟨finished, hlength, htable⟩ := LineRange.table_append {} false before rest
  refine ⟨finished, hlength, ?_⟩
  rw [lines, htext, ← htable]
  rfl

/-- The column counts from where the line table says that the line begins. -/
theorem Span.Covers.exists_line {source : Source} {w : List Char} {s : Span}
    (h : s.Covers source.contents.toList w) :
    ∃ range, source.lines[s.line - 1]? = some range ∧ range.start + (s.column - 1) = s.start := by
  obtain ⟨before, after, htext, rfl⟩ := h
  have hbytes := Position.bytes_le_offset_past (p := {}) (Nat.le_refl 0) before
  obtain ⟨finished, hlength, hlines⟩ := Source.lines_eq htext rfl
  obtain ⟨stop, ranges, hcons⟩ := LineRange.table_eq_cons
    ((Position.past {} before).offset - (Position.past {} before).bytes)
    (Position.past {} before).offset (LineRange.endsInReturn false before) (w ++ after)
  rw [hcons] at hlines
  refine ⟨⟨(Position.past {} before).offset - (Position.past {} before).bytes, stop⟩, ?_,
    Nat.sub_add_cancel hbytes⟩
  show source.lines[(Position.past {} before).lines]? = _
  rw [hlines, ← hlength, List.getElem?_append_right (Nat.le_refl _), Nat.sub_self,
    List.getElem?_cons_zero]

end Preflight
