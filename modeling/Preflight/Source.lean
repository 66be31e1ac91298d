import Preflight.Span
import Preflight.Text.Utf8

/-! # Source files

The text of a file, its lines, and messages that point into it. -/

namespace Preflight
set_option autoImplicit false

structure Source where
  file : String
  contents : String
deriving DecidableEq, Repr

/-- Byte offsets of the first character of a line and of its end. -/
structure LineRange where
  start : Nat
  stop : Nat
deriving DecidableEq, Repr

/-- The lines of what is left of a text, `offset` bytes in: the line at hand began at `start`, and
`afterReturn` tells whether the last character was a carriage return. A carriage return right
before a line feed is no part of the line. -/
def LineRange.table (start offset : Nat) (afterReturn : Bool) : List Char → List LineRange
  | [] => [⟨start, offset⟩]
  | c :: text =>
    let next := offset + c.utf8Size
    if c = '\n' then
      ⟨start, if afterReturn then offset - 1 else offset⟩ :: table next next false text
    else
      table start next (c == '\r') text

namespace Source

def lines (source : Source) : List LineRange := LineRange.table 0 0 false source.contents.toList

/-- The text between two byte offsets; empty where they name no places in the text. -/
def slice (source : Source) (start stop : Nat) : String :=
  .ofList ((slice? source.contents.toList start stop).getD [])

/-- The line with this number, counted from zero; empty past the last one. -/
def line (source : Source) (number : Nat) : String :=
  match source.lines[number]? with
  | none => ""
  | some range => source.slice range.start range.stop

/-- A message under an excerpt of the line, with a caret below the column. -/
def message (source : Source) (line column : Nat) (kind text : String) : String :=
  if line = 0 ∨ source.lines.length < line then
    s!"{source.file}: invalid line {line} specified"
  else
    let margin := "".pushn ' ' ((toString line).length + 1)
    let indent := "".pushn ' ' (column - 1)
    s!"\n--> {source.file}:{line}:{column}\n{margin}|\n{line} | {source.line (line - 1)}\n" ++
      s!"{margin}| {indent}^\n{kind}: {text}"

end Source

/-- The text that a span covers; empty if it lies outside of the file. -/
def Span.text (s : Span) (source : Source) : String := source.slice s.start s.stop

def Span.message (s : Span) (source : Source) (kind text : String) : String :=
  source.message s.line s.column kind text

end Preflight
