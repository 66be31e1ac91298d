import Preflight.Source

/-! # Line tables

The lines of a file, found in one scan over its characters. Offsets are words of 32 bits, and a file
that they could not reach through is refused. -/

namespace Preflight
set_option autoImplicit false

/-- What the scan knows: the lines that have ended, where the line at hand began, and the last
character with the place where it stands. -/
structure LineScan where
  ended : Array (UInt32 × UInt32) := #[]
  start : UInt32 := 0
  last : Char := ' '
  lastAt : UInt32 := 0

namespace LineScan

/-- Goes past a character that stands `offset` bytes in. -/
def past (scan : LineScan) (offset : Nat) (c : Char) : LineScan :=
  let next := { scan with last := c, lastAt := offset.toUInt32 }
  if c = '\n' then
    let stop := if scan.last = '\r' then scan.lastAt else offset.toUInt32
    { next with ended := scan.ended.push (scan.start, stop), start := offset.toUInt32 + 1 }
  else next

def run (scan : LineScan) (offset : Nat) : List Char → LineScan
  | [] => scan
  | c :: text => (scan.past offset c).run (offset + c.utf8Size) text

end LineScan

/-- A file with the places where its lines start and stop. -/
structure LineTable where
  file : String
  contents : String
  lines : Array (UInt32 × UInt32)

namespace LineTable

/-- Rows and columns that count from one, and the end of the file, can still be told. -/
def maxSize : Nat := 4294967293

/-- The line that no line feed ends. It is empty if the file is, or ends in a line feed. -/
def lastLine (start : UInt32) (size : Nat) : UInt32 × UInt32 :=
  if start.toNat < size then (start, size.toUInt32)
  else if size = 0 then (0, 0)
  else ((size - 1).toUInt32, (size - 1).toUInt32)

def ofContents (file contents : String) : Except String LineTable :=
  if maxSize < contents.utf8ByteSize then
    .error s!"{file} exceeds maximum allowed program file size {maxSize}"
  else
    let scan := LineScan.run {} 0 contents.toList
    .ok { file, contents, lines := scan.ended.push (lastLine scan.start contents.utf8ByteSize) }

/-- The line with this number, counted from zero; empty past the last one. There is no answer where
the table names no places in the text. -/
def line? (table : LineTable) (number : Nat) : Option String :=
  match table.lines[number]? with
  | none => some ""
  | some (start, stop) =>
    (slice? table.contents.toList start.toNat stop.toNat).map .ofList

def message? (table : LineTable) (line column : Nat) (kind text : String) : Option String :=
  if line = 0 ∨ table.lines.size < line then
    some s!"{table.file}: invalid line {line} specified"
  else do
    let margin := "".pushn ' ' ((toString line).length + 1)
    let indent := "".pushn ' ' (column - 1)
    let excerpt ← table.line? (line - 1)
    return s!"\n--> {table.file}:{line}:{column}\n{margin}|\n{line} | {excerpt}\n" ++
      s!"{margin}| {indent}^\n{kind}: {text}"

end LineTable

end Preflight
