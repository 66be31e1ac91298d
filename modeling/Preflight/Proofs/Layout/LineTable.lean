import Mathlib.Data.List.Forall2
import Preflight.LineTable
import Preflight.Proofs.Layout.Excerpt
import Preflight.Proofs.Pieces

/-! # The lines that a table holds

A text with `k` line feeds has `k + 1` lines, the pieces between the line feeds. Both line tables
hold them, one entry for each: the one of a source, and the one that is found in a scan. They differ
only in where they put an empty line at the end. -/

namespace Preflight
set_option autoImplicit false

/-! ## Lines -/

/-- A carriage return at the end of a line is no part of it. -/
def dropReturn (piece : List Char) : List Char :=
  if piece.getLast? = some '\r' then piece.dropLast else piece

/-- The lines of a text. The last one, which no line feed ends, keeps a carriage return. -/
def linesOf (text : List Char) : List (List Char) :=
  let pieces := text.splitOn '\n'
  pieces.dropLast.map dropReturn ++ pieces.getLast?.toList

theorem linesOf_open {text : List Char} (h : '\n' ∉ text) : linesOf text = [text] := by
  rw [linesOf, List.splitOn_eq_singleton h]
  rfl

theorem linesOf_cons {line : List Char} (h : '\n' ∉ line) (rest : List Char) :
    linesOf (line ++ '\n' :: rest) = dropReturn line :: linesOf rest := by
  have hne := List.splitOn_ne_nil '\n' rest
  rw [linesOf, List.splitOn_append_cons_self_of_not_mem h]
  rw [List.dropLast_cons_of_ne_nil hne, List.getLast?_cons_of_ne_nil hne]
  rfl

theorem getElem?_linesOf_of_lt {text : List Char} {i : Nat} (hi : i < text.count '\n') :
    (linesOf text)[i]? = (text.splitOn '\n')[i]?.map dropReturn := by
  have hlength := length_splitOn '\n' text
  rw [linesOf, List.getElem?_append_left (by simp; omega), List.getElem?_map,
    List.getElem?_dropLast, if_pos (by omega)]

theorem getElem?_linesOf_last (text : List Char) :
    (linesOf text)[text.count '\n']? = (text.splitOn '\n').getLast? := by
  have hlength := length_splitOn '\n' text
  rw [linesOf, List.getElem?_append_right (by simp [hlength]), List.length_map,
    List.length_dropLast, hlength, Nat.add_sub_cancel, Nat.sub_self]
  cases (text.splitOn '\n').getLast? <;> rfl

theorem length_linesOf (text : List Char) : (linesOf text).length = text.count '\n' + 1 := by
  have hlength := length_splitOn '\n' text
  have hlast := List.getLast?_isSome.mpr (List.splitOn_ne_nil '\n' text)
  obtain ⟨last, hlast⟩ := Option.isSome_iff_exists.mp hlast
  simp [linesOf, hlength, hlast]

/-- The range of the text where the line stands. -/
def LineRange.Holds (text : List Char) (range : LineRange) (line : List Char) : Prop :=
  ∃ before after, text = before ++ (line ++ after) ∧ range.start = utf8Length before ∧
    range.stop = utf8Length before + utf8Length line

namespace LineRange

variable {text line : List Char} {range : LineRange}

theorem Holds.slice?_eq (h : range.Holds text line) :
    slice? text range.start range.stop = some line := by
  obtain ⟨before, after, htext, hstart, hstop⟩ := h
  exact Preflight.slice?_eq htext hstart.symm (by rw [hstart, hstop])

theorem Holds.bounds {contents : String} (h : range.Holds contents.toList line) :
    String.Pos.Raw.IsValid contents ⟨range.start⟩ ∧ String.Pos.Raw.IsValid contents ⟨range.stop⟩ ∧
      range.start ≤ range.stop ∧ range.stop ≤ contents.utf8ByteSize := by
  obtain ⟨before, after, htext, hstart, hstop⟩ := h
  have hsize := congrArg utf8Length htext
  rw [utf8Length_toList, utf8Length_append, utf8Length_append] at hsize
  refine ⟨hstart ▸ isValid_utf8Length htext, ?_, by omega, by omega⟩
  rw [← List.append_assoc] at htext
  have hvalid := isValid_utf8Length htext
  rwa [utf8Length_append, ← hstop] at hvalid

/-- Without its carriage return, a line ends one byte earlier. -/
theorem add_utf8Length_dropReturn (offset : Nat) (line : List Char) :
    offset + utf8Length (dropReturn line) =
      if endsInReturn false line then offset + utf8Length line - 1
      else offset + utf8Length line := by
  unfold dropReturn
  by_cases hlast : line.getLast? = some '\r'
  · obtain ⟨front, rfl⟩ := List.getLast?_eq_some_iff.mp hlast
    have hends : endsInReturn false (front ++ ['\r']) = true := by simp [endsInReturn]
    rw [if_pos hlast, hends, if_pos rfl, List.dropLast_concat, utf8Length_append]
    rfl
  · rw [if_neg hlast, endsInReturn_eq_false hlast]
    rfl

theorem exists_eq_dropReturn_append (line : List Char) :
    ∃ rest, line = dropReturn line ++ rest := by
  unfold dropReturn
  split
  next => exact ⟨_, (List.dropLast_append_getLast? _ ‹_›).symm⟩
  next => exact ⟨[], (List.append_nil line).symm⟩

/-- The line table holds the lines of the text one after the other. -/
theorem holds_table {text before rest : List Char} (htext : text = before ++ rest) :
    List.Forall₂ (Holds text) (table (utf8Length before) (utf8Length before) false rest)
      (linesOf rest) := by
  induction hn : rest.count '\n' generalizing before rest with
  | zero =>
    have hrest : '\n' ∉ rest := List.count_eq_zero.mp hn
    rw [table_open hrest, linesOf_open hrest]
    exact .cons ⟨before, [], by rw [List.append_nil, htext], rfl, rfl⟩ .nil
  | succ n ih =>
    have hmem : '\n' ∈ rest := List.count_pos_iff.mp (by omega)
    obtain ⟨line, rest', rfl, hline⟩ := List.eq_append_cons_of_mem hmem
    rw [table_line hline, linesOf_cons hline]
    refine .cons ?_ ?_
    · obtain ⟨w, hw⟩ := exists_eq_dropReturn_append line
      refine ⟨before, w ++ '\n' :: rest', ?_, rfl, (add_utf8Length_dropReturn _ line).symm⟩
      rw [htext, ← List.append_assoc (dropReturn line), ← hw]
    · have hbefore : utf8Length before + utf8Length line + 1 =
          utf8Length (before ++ (line ++ ['\n'])) := by
        rw [utf8Length_append, utf8Length_append, ← Nat.add_assoc]
        rfl
      rw [hbefore]
      refine ih (by simp [htext]) ?_
      rw [List.count_append, List.count_cons_self, List.count_eq_zero.mpr hline] at hn
      omega

end LineRange

/-! ## The table of a source -/

theorem forall₂_getElem? {α β : Type} {R : α → β → Prop} {xs : List α} {ys : List β}
    (h : List.Forall₂ R xs ys) (i : Nat) : Option.Rel R xs[i]? ys[i]? := by
  induction h generalizing i with
  | nil => exact .none
  | cons hxy _ ih =>
    cases i with
    | zero => exact .some hxy
    | succ i => exact ih i

theorem exists_of_mem_left {α β : Type} {R : α → β → Prop} {xs : List α} {ys : List β}
    (h : List.Forall₂ R xs ys) {x : α} (hx : x ∈ xs) : ∃ y, R x y := by
  obtain ⟨i, hi⟩ := List.mem_iff_getElem?.mp hx
  have hrel := forall₂_getElem? h i
  rw [hi] at hrel
  generalize ys[i]? = found at hrel
  cases hrel with
  | some hxy => exact ⟨_, hxy⟩

namespace Source

theorem holds_lines (source : Source) :
    List.Forall₂ (LineRange.Holds source.contents.toList) source.lines
      (linesOf source.contents.toList) :=
  LineRange.holds_table (List.nil_append source.contents.toList).symm

theorem length_lines (source : Source) :
    source.lines.length = source.contents.toList.count '\n' + 1 := by
  rw [source.holds_lines.length_eq, length_linesOf]

theorem line_eq_linesOf (source : Source) (number : Nat) :
    source.line number = .ofList ((linesOf source.contents.toList)[number]?.getD []) := by
  have hrel := forall₂_getElem? source.holds_lines number
  unfold line
  generalize source.lines[number]? = range, (linesOf source.contents.toList)[number]? = line
    at hrel ⊢
  cases hrel with
  | none => rfl
  | some h =>
    dsimp only
    rw [slice, h.slice?_eq]

/-- Every excerpt is longer than a report of an invalid line, whatever the file is called. -/
theorem excerpt_ne_invalid (file : String) {line column : Nat} {excerpt kind text : String} :
    let margin := "".pushn ' ' ((toString line).length + 1)
    let indent := "".pushn ' ' (column - 1)
    s!"\n--> {file}:{line}:{column}\n{margin}|\n{line} | {excerpt}\n" ++
      s!"{margin}| {indent}^\n{kind}: {text}" ≠ s!"{file}: invalid line {line} specified" := by
  intro margin indent h
  have hlength := congrArg String.length h
  have hmargin : (toString margin).length = (toString line).length + 1 := by
    rw [show toString margin = margin from rfl, String.length_pushn]
    exact Nat.zero_add _
  have hline : 0 < (toString line).length := Nat.length_repr_pos
  have hcolumn : 0 < (toString column).length := Nat.length_repr_pos
  simp only [String.length_append, hmargin, show (toString "\n--> ").length = 5 from rfl,
    show (toString ":").length = 1 from rfl, show (toString "\n").length = 1 from rfl,
    show (toString "|\n").length = 2 from rfl, show (toString " | ").length = 3 from rfl,
    show (toString "| ").length = 2 from rfl, show (toString "^\n").length = 2 from rfl,
    show (toString ": ").length = 2 from rfl,
    show (toString ": invalid line ").length = 15 from rfl,
    show (toString " specified").length = 10 from rfl] at hlength
  omega

theorem message_eq_invalid_iff (source : Source) (line column : Nat) (kind text : String) :
    source.message line column kind text = s!"{source.file}: invalid line {line} specified" ↔
      line = 0 ∨ source.lines.length < line := by
  unfold message
  split
  next h => exact iff_of_true rfl h
  next h => exact iff_of_false (excerpt_ne_invalid source.file) h

end Source

/-! ## The scan -/

namespace LineScan

/-- The range that two words tell. -/
def range (entry : UInt32 × UInt32) : LineRange := ⟨entry.1.toNat, entry.2.toNat⟩

theorem toNat_toUInt32 {n : Nat} (h : n ≤ LineTable.maxSize) : n.toUInt32.toNat = n := by
  have hlt : n < 2 ^ 32 := Nat.lt_of_le_of_lt h (by decide)
  exact UInt32.toNat_ofNat_of_lt' hlt

/-- The scan stands `offset` bytes in, with the line at hand begun where it was, and it knows
whether a carriage return came last. -/
structure At (scan : LineScan) (start offset : Nat) (afterReturn : Bool) : Prop where
  start : scan.start.toNat = start
  last : (scan.last == '\r') = afterReturn
  lastAt : afterReturn = true → scan.lastAt.toNat = offset - 1

variable {scan : LineScan} {start offset : Nat} {afterReturn : Bool}

theorem past_newline : scan.past offset '\n' =
    { ended := scan.ended.push
        (scan.start, if scan.last = '\r' then scan.lastAt else offset.toUInt32)
      start := offset.toUInt32 + 1
      last := '\n'
      lastAt := offset.toUInt32 } :=
  rfl

theorem past_of_ne {c : Char} (hc : c ≠ '\n') :
    scan.past offset c = { scan with last := c, lastAt := offset.toUInt32 } :=
  if_neg hc

theorem toNat_behind_newline (hsize : offset + 1 ≤ LineTable.maxSize) :
    (offset.toUInt32 + 1).toNat = offset + 1 := by
  have hlt : offset + 1 < 2 ^ 32 := Nat.lt_of_le_of_lt hsize (by decide)
  rw [UInt32.toNat_add, toNat_toUInt32 (by omega)]
  exact Nat.mod_eq_of_lt hlt

theorem at_past_newline (hsize : offset + 1 ≤ LineTable.maxSize) :
    (scan.past offset '\n').At (offset + 1) (offset + 1) false where
  start := toNat_behind_newline hsize
  last := rfl
  lastAt := nofun

theorem At.past_of_ne (h : scan.At start offset afterReturn) {c : Char} (hc : c ≠ '\n')
    (hsize : offset ≤ LineTable.maxSize) :
    (scan.past offset c).At start (offset + c.utf8Size) (c == '\r') := by
  rw [LineScan.past_of_ne hc]
  refine ⟨h.start, rfl, fun hreturn => ?_⟩
  obtain rfl := beq_iff_eq.mp hreturn
  exact toNat_toUInt32 hsize

/-- The line that a line feed ends. -/
theorem At.range_ended (h : scan.At start offset afterReturn)
    (hsize : offset ≤ LineTable.maxSize) :
    range (scan.start, if scan.last = '\r' then scan.lastAt else offset.toUInt32) =
      ⟨start, if afterReturn then offset - 1 else offset⟩ := by
  have hlast := h.last
  rw [range, h.start]
  cases afterReturn with
  | true =>
    rw [if_pos (beq_iff_eq.mp hlast), h.lastAt rfl]
    rfl
  | false =>
    rw [if_neg (beq_eq_false_iff_ne.mp hlast), toNat_toUInt32 hsize]
    rfl

/-- The lines that have ended, and then the line at hand up to the end of the text. -/
theorem At.range_run (h : scan.At start offset afterReturn) {text : List Char}
    (hsize : offset + utf8Length text ≤ LineTable.maxSize) :
    (scan.run offset text).ended.toList.map range ++
        [⟨(scan.run offset text).start.toNat, offset + utf8Length text⟩] =
      scan.ended.toList.map range ++ LineRange.table start offset afterReturn text := by
  induction text generalizing scan start offset afterReturn with
  | nil =>
    rw [run, h.start]
    rfl
  | cons c text ih =>
    rw [utf8Length_cons, ← Nat.add_assoc] at hsize ⊢
    rw [run]
    by_cases hc : c = '\n'
    · subst hc
      have hoffset : offset + 1 ≤ LineTable.maxSize := Nat.le_trans (Nat.le_add_right _ _) hsize
      refine (ih (at_past_newline hoffset) hsize).trans ?_
      rw [past_newline, Array.toList_push, List.map_append, List.append_assoc, List.map_singleton,
        h.range_ended (by omega)]
      rfl
    · refine (ih (h.past_of_ne hc (by omega)) hsize).trans ?_
      rw [LineScan.past_of_ne hc, LineRange.table, if_neg hc]

/-- The line at hand begins where it began, or right behind a line feed. -/
theorem start_run (scan : LineScan) {text : List Char}
    (hsize : offset + utf8Length text ≤ LineTable.maxSize) :
    (scan.run offset text).start = scan.start ∨ ∃ front back, text = front ++ '\n' :: back ∧
      (scan.run offset text).start.toNat = offset + utf8Length front + 1 := by
  induction text generalizing scan offset with
  | nil => exact .inl rfl
  | cons c text ih =>
    rw [utf8Length_cons, ← Nat.add_assoc] at hsize
    rw [run]
    rcases ih (scan.past offset c) hsize with hsame | ⟨front, back, rfl, hstart⟩
    · rw [hsame]
      by_cases hc : c = '\n'
      · subst hc
        have hoffset : offset + 1 ≤ LineTable.maxSize := Nat.le_trans (Nat.le_add_right _ _) hsize
        exact .inr ⟨[], text, rfl, toNat_behind_newline hoffset⟩
      · rw [past_of_ne hc]
        exact .inl rfl
    · refine .inr ⟨c :: front, back, rfl, ?_⟩
      rw [hstart, utf8Length_cons, Nat.add_assoc offset]

end LineScan

/-! ## The table that is found -/

theorem eq_nil_of_utf8Length_eq_zero {text : List Char} (h : utf8Length text = 0) : text = [] := by
  cases text with
  | nil => rfl
  | cons c text =>
    have := c.utf8Size_pos
    rw [utf8Length_cons] at h
    omega

theorem forall₂_replace_last {α β : Type} {R : α → β → Prop} {xs : List α} {x x' : α} {ys : List β}
    (h : List.Forall₂ R (xs ++ [x]) ys) (hx : ∀ y, R x y → R x' y) :
    List.Forall₂ R (xs ++ [x']) ys := by
  induction xs generalizing ys with
  | nil =>
    obtain ⟨y, _, hxy, htail, rfl⟩ := List.forall₂_cons_left_iff.mp h
    exact .cons (hx y hxy) htail
  | cons w xs ih =>
    obtain ⟨y, ys, hwy, htail, rfl⟩ := List.forall₂_cons_left_iff.mp h
    exact .cons hwy (ih htail)

namespace LineTable

/-- Where the last line is empty, it is held as well by the place before the line feed. -/
theorem holds_lastLine {text line : List Char} {start : UInt32}
    (hsize : utf8Length text ≤ maxSize)
    (hstart : start = 0 ∨ ∃ front back, text = front ++ '\n' :: back ∧
      start.toNat = 0 + utf8Length front + 1)
    (h : LineRange.Holds text ⟨start.toNat, utf8Length text⟩ line) :
    LineRange.Holds text (LineScan.range (lastLine start (utf8Length text))) line := by
  obtain ⟨before, after, htext, hbegin, hend⟩ := h
  dsimp only at hbegin hend
  unfold lastLine
  split
  next =>
    rw [LineScan.range, LineScan.toNat_toUInt32 hsize]
    exact ⟨before, after, htext, hbegin, hend⟩
  next hpast =>
    have hline : line = [] := eq_nil_of_utf8Length_eq_zero (by omega)
    subst hline
    split
    next hempty =>
      have hbefore : utf8Length before = 0 := by omega
      exact ⟨before, after, htext, hbefore.symm, hbefore.symm⟩
    next hnonempty =>
      rcases hstart with rfl | ⟨front, back, htext', hfront⟩
      · exact absurd (show (0 : UInt32).toNat = 0 from rfl) (by omega)
      · have hlength := congrArg utf8Length htext'
        rw [utf8Length_append, utf8Length_cons] at hlength
        have hnewline : '\n'.utf8Size = 1 := rfl
        have hplace : utf8Length text - 1 = utf8Length front := by omega
        rw [hplace, LineScan.range, LineScan.toNat_toUInt32 (by omega)]
        exact ⟨front, '\n' :: back, htext', rfl, rfl⟩

/-- The entries hold the lines of the text one after the other. -/
theorem exists_ofContents (file : String) {contents : String}
    (hsize : contents.utf8ByteSize ≤ maxSize) : ∃ table, ofContents file contents = .ok table ∧
      table.file = file ∧ table.contents = contents ∧
      List.Forall₂ (LineRange.Holds contents.toList) (table.lines.toList.map LineScan.range)
        (linesOf contents.toList) := by
  refine ⟨_, if_neg (Nat.not_lt_of_le hsize), rfl, rfl, ?_⟩
  have hlength := utf8Length_toList contents
  have hreach : 0 + utf8Length contents.toList ≤ maxSize := by omega
  have start : LineScan.At {} 0 0 false := ⟨rfl, rfl, nofun⟩
  have hrun := start.range_run hreach
  have holds : List.Forall₂ (LineRange.Holds contents.toList)
      (LineRange.table 0 0 false contents.toList) (linesOf contents.toList) :=
    LineRange.holds_table (List.nil_append _).symm
  rw [show ({} : LineScan).ended.toList.map LineScan.range = [] from rfl, List.nil_append,
    Nat.zero_add] at hrun
  rw [← hrun] at holds
  rw [Array.toList_push, List.map_append, List.map_singleton, ← hlength]
  exact forall₂_replace_last holds fun line =>
    holds_lastLine (by omega) (LineScan.start_run {} hreach)

variable {table : LineTable} {file contents : String}

theorem line?_eq (hcontents : table.contents = contents)
    (holds : List.Forall₂ (LineRange.Holds contents.toList)
      (table.lines.toList.map LineScan.range) (linesOf contents.toList)) (number : Nat) :
    table.line? number = some (.ofList ((linesOf contents.toList)[number]?.getD [])) := by
  have hrel := forall₂_getElem? holds number
  rw [List.getElem?_map, Array.getElem?_toList] at hrel
  unfold line?
  rw [hcontents]
  generalize table.lines[number]? = entry, (linesOf contents.toList)[number]? = line at hrel ⊢
  cases entry with
  | none =>
    cases hrel
    rfl
  | some entry =>
    cases hrel with
    | some h => exact congrArg (Option.map String.ofList) h.slice?_eq

/-- The table answers for the lines of the text as the source does: for each piece between line
feeds, in the messages that show one, and nowhere else. -/
structure Tells (file contents : String) (table : LineTable) : Prop where
  size : table.lines.size = contents.toList.count '\n' + 1
  ended : ∀ i < contents.toList.count '\n', ∃ piece,
    (contents.toList.splitOn '\n')[i]? = some piece ∧
    table.line? i = some (.ofList (dropReturn piece))
  last : ∃ piece, (contents.toList.splitOn '\n').getLast? = some piece ∧
    table.line? (contents.toList.count '\n') = some (.ofList piece)
  past : ∀ i > contents.toList.count '\n', table.line? i = some ""
  places : ∀ entry ∈ table.lines, String.Pos.Raw.IsValid contents ⟨entry.1.toNat⟩ ∧
    String.Pos.Raw.IsValid contents ⟨entry.2.toNat⟩ ∧ entry.1 ≤ entry.2 ∧
    entry.2.toNat ≤ contents.utf8ByteSize
  message : ∀ line column kind text, ∃ shown, table.message? line column kind text = some shown ∧
    (shown = s!"{file}: invalid line {line} specified" ↔
      line = 0 ∨ contents.toList.count '\n' + 1 < line)
  source_line : ∀ i, table.line? i = some (Source.line ⟨file, contents⟩ i)
  source_message : ∀ line column kind text, table.message? line column kind text =
    some (Source.message ⟨file, contents⟩ line column kind text)

theorem tells_of_holds (hfile : table.file = file) (hcontents : table.contents = contents)
    (holds : List.Forall₂ (LineRange.Holds contents.toList)
      (table.lines.toList.map LineScan.range) (linesOf contents.toList)) :
    table.Tells file contents := by
  have hline := line?_eq hcontents holds
  have hsize : table.lines.size = contents.toList.count '\n' + 1 := by
    rw [← length_linesOf, ← holds.length_eq, List.length_map, Array.length_toList]
  have hsource : ∀ i, table.line? i = some (Source.line ⟨file, contents⟩ i) := by
    intro i
    rw [hline, Source.line_eq_linesOf]
  have hmessage : ∀ line column kind text, table.message? line column kind text =
      some (Source.message ⟨file, contents⟩ line column kind text) := by
    intro line column kind text
    unfold message? Source.message
    rw [hsize, Source.length_lines, hsource, hfile]
    split <;> rfl
  refine ⟨hsize, ?_, ?_, ?_, ?_, ?_, hsource, hmessage⟩
  · intro i hi
    have hlength := length_splitOn '\n' contents.toList
    have hsome : i < (contents.toList.splitOn '\n').length := by omega
    refine ⟨_, List.getElem?_eq_getElem hsome, ?_⟩
    rw [hline, getElem?_linesOf_of_lt hi, List.getElem?_eq_getElem hsome]
    rfl
  · have hne := List.splitOn_ne_nil '\n' contents.toList
    obtain ⟨piece, hpiece⟩ := Option.isSome_iff_exists.mp (List.getLast?_isSome.mpr hne)
    refine ⟨piece, hpiece, ?_⟩
    rw [hline, getElem?_linesOf_last, hpiece]
    rfl
  · intro i hi
    rw [hline, List.getElem?_eq_none (by rw [length_linesOf]; omega)]
    rfl
  · intro entry hentry
    obtain ⟨line, h⟩ := exists_of_mem_left holds
      (List.mem_map_of_mem (Array.mem_toList_iff.mpr hentry))
    obtain ⟨hstart, hstop, hle, hend⟩ := h.bounds
    exact ⟨hstart, hstop, UInt32.le_iff_toNat_le.mpr hle, hend⟩
  · intro line column kind text
    refine ⟨_, hmessage line column kind text, ?_⟩
    rw [Source.message_eq_invalid_iff, Source.length_lines]

/-- A file that is not too large has a table that tells its lines. -/
theorem ofContents_tells (file : String) {contents : String}
    (hsize : contents.utf8ByteSize ≤ maxSize) :
    ∃ table, ofContents file contents = .ok table ∧ table.Tells file contents := by
  obtain ⟨table, htable, hfile, hcontents, holds⟩ := exists_ofContents file hsize
  exact ⟨table, htable, tells_of_holds hfile hcontents holds⟩

/-- Carriage returns in a row, at the start of a line, and at the end of the text. -/
theorem ofContents_tells_returns : ("é\r\r\n\r\nend\r".utf8ByteSize ≤ maxSize) ∧
    ∃ table, ofContents "main.bicep" "é\r\r\n\r\nend\r" = .ok table ∧
      table.lines = #[(0, 3), (5, 5), (7, 11)] ∧
      table.line? 0 = some "é\r" ∧ table.line? 2 = some "end\r" := by
  have hsize : "é\r\r\n\r\nend\r".utf8ByteSize ≤ maxSize := by decide
  obtain ⟨table, htable, tells⟩ := ofContents_tells "main.bicep" hsize
  have hlines : (ofContents "main.bicep" "é\r\r\n\r\nend\r").toOption.map lines =
      some #[(0, 3), (5, 5), (7, 11)] := by
    decide +kernel
  rw [htable] at hlines
  refine ⟨hsize, table, htable, Option.some.inj hlines, ?_, ?_⟩
  · rw [tells.source_line]
    decide +kernel
  · rw [tells.source_line]
    decide +kernel

end LineTable

end Preflight
