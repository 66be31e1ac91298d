import Preflight.Source

/-! # What a span covers

A span covers a stretch of a text if it says where the stretch begins, in lines, columns and bytes,
and where it stops. -/

namespace Preflight
set_option autoImplicit false

/-- Where a text ends that begins at `p`. -/
def Position.past (p : Position) : List Char → Position
  | [] => p
  | c :: text => past (if c = '\n' then ⟨p.lines + 1, 0, p.offset + 1⟩
      else ⟨p.lines, p.bytes + c.utf8Size, p.offset + c.utf8Size⟩) text

namespace Position

theorem past_append (p : Position) (s t : List Char) : p.past (s ++ t) = (p.past s).past t := by
  induction s generalizing p with
  | nil => rfl
  | cons c s ih => exact ih _

theorem offset_past (p : Position) (t : List Char) :
    (p.past t).offset = p.offset + utf8Length t := by
  induction t generalizing p with
  | nil => rfl
  | cons c t ih =>
    rw [past, ih, utf8Length_cons]
    split
    next hc =>
      rw [hc, Nat.add_assoc]
      rfl
    next => exact Nat.add_assoc _ _ _

/-- On one line, columns go on with the bytes. -/
theorem past_eq_of_notMem {p : Position} {t : List Char} (h : '\n' ∉ t) :
    p.past t = ⟨p.lines, p.bytes + utf8Length t, p.offset + utf8Length t⟩ := by
  induction t generalizing p with
  | nil => rfl
  | cons c t ih =>
    rw [List.mem_cons, not_or] at h
    rw [past, if_neg (Ne.symm h.1), ih h.2, utf8Length_cons, Nat.add_assoc, Nat.add_assoc]

end Position

/-- The slice of what stands between two parts of a text. -/
theorem slice?_eq {text before w after : List Char} (h : text = before ++ (w ++ after))
    {start stop : Nat} (hstart : utf8Length before = start) (hstop : start + utf8Length w = stop) :
    slice? text start stop = some w := by
  have hbefore := splitBytes?_eq_some_iff.mpr ⟨h, hstart⟩
  have hwithin : splitBytes? (stop - start) (w ++ after) = some (w, after) := by
    refine splitBytes?_eq_some_iff.mpr ⟨rfl, ?_⟩
    rw [← hstop, Nat.add_sub_cancel_left]
  rw [slice?, if_pos (hstop ▸ Nat.le_add_right _ _), hbefore]
  show (splitBytes? (stop - start) (w ++ after)).bind (fun split => some split.1) = some w
  rw [hwithin]
  rfl

theorem Source.slice_eq {source : Source} {before w after : List Char}
    (h : source.contents.toList = before ++ (w ++ after)) {start stop : Nat}
    (hstart : utf8Length before = start) (hstop : start + utf8Length w = stop) :
    source.slice start stop = .ofList w := by
  rw [slice, slice?_eq h hstart hstop]
  rfl

namespace Span

/-- The span covers `w`, which stands in the text. -/
def Covers (text : List Char) (s : Span) (w : List Char) : Prop :=
  ∃ before after, text = before ++ (w ++ after) ∧
    s = upTo (Position.past {} before) (utf8Length before + utf8Length w)

namespace Covers

variable {text w : List Char} {s : Span}

theorem stop_eq (h : s.Covers text w) : s.stop = s.start + utf8Length w := by
  obtain ⟨before, after, -, rfl⟩ := h
  show utf8Length before + utf8Length w = (Position.past {} before).offset + utf8Length w
  rw [Position.offset_past, Nat.zero_add]

theorem start_le_stop (h : s.Covers text w) : s.start ≤ s.stop := by
  rw [h.stop_eq]
  exact Nat.le_add_right _ _

theorem stop_le (h : s.Covers text w) : s.stop ≤ utf8Length text := by
  obtain ⟨before, after, rfl, rfl⟩ := h
  rw [utf8Length_append, utf8Length_append, ← Nat.add_assoc]
  exact Nat.le_add_right _ _

theorem exists_split (h : s.Covers text w) :
    ∃ before after, text = before ++ (w ++ after) ∧ utf8Length before = s.start := by
  obtain ⟨before, after, htext, rfl⟩ := h
  refine ⟨before, after, htext, ?_⟩
  show utf8Length before = (Position.past {} before).offset
  rw [Position.offset_past, Nat.zero_add]

theorem text_eq {source : Source} (h : s.Covers source.contents.toList w) :
    s.text source = .ofList w := by
  obtain ⟨before, after, htext, hstart⟩ := h.exists_split
  exact Source.slice_eq htext hstart h.stop_eq.symm

theorem append (h : s.Covers text w) (more : List Char) : s.Covers (text ++ more) w := by
  obtain ⟨before, after, rfl, rfl⟩ := h
  exact ⟨before, after ++ more, by simp only [List.append_assoc], rfl⟩

/-- What a line covers, it covers where the line stands in a file. -/
theorem shift (h : s.Covers text w) (hline : '\n' ∉ text) (before after : List Char) :
    (s.shift (Position.past {} before)).Covers (before ++ (text ++ after)) w := by
  obtain ⟨front, rest, rfl, rfl⟩ := h
  have hfront : '\n' ∉ front := fun hmem => hline (List.mem_append_left _ hmem)
  refine ⟨before ++ front, rest ++ after, ?_, ?_⟩
  · simp only [List.append_assoc]
  · rw [Position.past_eq_of_notMem hfront, shift_upTo, Position.past_append,
      Position.past_eq_of_notMem hfront, Position.offset_past, utf8Length_append]
    simp only [Nat.zero_add, Nat.add_zero, Nat.add_assoc]

end Covers

/-- The spans stand between two offsets, one after the other. -/
def InOrder (start stop : Nat) : List Span → Prop
  | [] => start ≤ stop
  | s :: spans => start ≤ s.start ∧ s.start ≤ s.stop ∧ InOrder s.stop stop spans

namespace InOrder

variable {start stop : Nat} {spans : List Span}

theorem start_le_stop (h : InOrder start stop spans) : start ≤ stop := by
  induction spans generalizing start with
  | nil => exact h
  | cons s spans ih => exact Nat.le_trans h.1 (Nat.le_trans h.2.1 (ih h.2.2))

theorem append {middle : Nat} {spans' : List Span} (h : InOrder start middle spans)
    (h' : InOrder middle stop spans') : InOrder start stop (spans ++ spans') := by
  induction spans generalizing start with
  | nil =>
    cases spans' with
    | nil => exact Nat.le_trans h h'
    | cons s spans' => exact ⟨Nat.le_trans h h'.1, h'.2⟩
  | cons s spans ih => exact ⟨h.1, h.2.1, ih h.2.2⟩

theorem single {s : Span} (hstart : start ≤ s.start) (hs : s.start ≤ s.stop)
    (hstop : s.stop ≤ stop) : InOrder start stop [s] :=
  ⟨hstart, hs, hstop⟩

theorem left {spans' : List Span} (h : InOrder start stop (spans ++ spans')) :
    InOrder start stop spans := by
  induction spans generalizing start with
  | nil => exact start_le_stop h
  | cons s spans ih => exact ⟨h.1, h.2.1, ih h.2.2⟩

theorem within (h : InOrder start stop spans) {s : Span} (hs : s ∈ spans) :
    start ≤ s.start ∧ s.stop ≤ stop := by
  induction spans generalizing start with
  | nil => cases hs
  | cons t spans ih =>
    obtain ⟨hstart, hle, hrest⟩ := h
    rcases List.mem_cons.mp hs with rfl | hs
    · exact ⟨hstart, start_le_stop hrest⟩
    · obtain ⟨hmore, hstop⟩ := ih hrest hs
      exact ⟨Nat.le_trans (Nat.le_trans hstart hle) hmore, hstop⟩

theorem pairwise (h : InOrder start stop spans) :
    spans.Pairwise fun s t => s.stop ≤ t.start := by
  induction spans generalizing start with
  | nil => exact .nil
  | cons s spans ih => exact .cons (fun t ht => (within h.2.2 ht).1) (ih h.2.2)

theorem shift (h : InOrder start stop spans) (p : Position) :
    InOrder (p.offset + start) (p.offset + stop) (spans.map (Span.shift p)) := by
  induction spans generalizing start with
  | nil => exact Nat.add_le_add_left h _
  | cons s spans ih =>
    exact ⟨Nat.add_le_add_left h.1 _, Nat.add_le_add_left h.2.1 _, ih h.2.2⟩

end InOrder

end Span

end Preflight
