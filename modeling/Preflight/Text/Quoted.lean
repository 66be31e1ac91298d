import Preflight.Text.Lowercase
import Preflight.Text.PrintTable

/-! # Quoted text

A text in double quotes on one line. Quotes, backslashes and controls are escaped, and so is what
would not show by itself. -/

namespace Preflight
set_option autoImplicit false

/-- Two sound marks of Japanese that extend the character before them, but take a place of their
own. -/
def isHalfwidthSoundMark (c : Char) : Bool := c == '\uFF9E' || c == '\uFF9F'

/-- Whether a character shows, and shows by itself. -/
def isPrintable (c : Char) : Bool :=
  if c.toNat < 128 then 0x20 ≤ c.toNat && c.toNat < 0x7F
  else
    !inRanges PrintTable.unprintable c && !inRanges PrintTable.defaultIgnorable c &&
      (isHalfwidthSoundMark c || !inRanges PrintTable.graphemeExtend c)

def escapeChar (c : Char) : List Char :=
  match c with
  | '\x00' => ['\\', '0']
  | '\t' => ['\\', 't']
  | '\r' => ['\\', 'r']
  | '\n' => ['\\', 'n']
  | '\\' => ['\\', '\\']
  | '"' => ['\\', '"']
  | c =>
    if isPrintable c then [c]
    else ['\\', 'u', '{'] ++ Nat.toDigits 16 c.toNat ++ ['}']

def quoted (text : String) : String := .ofList ('"' :: text.toList.flatMap escapeChar ++ ['"'])

end Preflight
