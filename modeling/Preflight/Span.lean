/-! # Places in a text

Lines and columns are counted from one. Columns and offsets count UTF-8 bytes. -/

namespace Preflight
set_option autoImplicit false

/-- The stretch of text that a node was read from: the line and column of its first character,
and its range of byte offsets. -/
structure Span where
  line : Nat := 0
  column : Nat := 0
  start : Nat := 0
  stop : Nat := 0
deriving DecidableEq, Hashable, Repr, Inhabited

/-- What lies before a point of a text: finished lines, bytes of the unfinished one, and bytes
in all. -/
structure Position where
  lines : Nat := 0
  bytes : Nat := 0
  offset : Nat := 0
deriving DecidableEq, Repr, Inhabited

namespace Span

def upTo (p : Position) (stop : Nat) : Span where
  line := p.lines + 1
  column := p.bytes + 1
  start := p.offset
  stop := stop

/-- A range of bytes of a text that is a single line. -/
def inLine (start stop : Nat) : Span := upTo { bytes := start, offset := start } stop

/-- Where a span of a single-line text lies once the text stands at `p`. -/
def shift (p : Position) (s : Span) : Span where
  line := p.lines + s.line
  column := p.bytes + s.column
  start := p.offset + s.start
  stop := p.offset + s.stop

instance : ToString Span where
  toString s := s!"{s.line}:{s.column}:{s.start}:{s.stop}"

@[simp] theorem shift_origin (s : Span) : s.shift {} = s := by simp [shift]

theorem shift_upTo (p q : Position) (stop : Nat) :
    (upTo q stop).shift p =
      upTo ⟨p.lines + q.lines, p.bytes + q.bytes, p.offset + q.offset⟩ (p.offset + stop) := by
  simp [shift, upTo, Nat.add_assoc]

end Span

end Preflight
