import Preflight.Text.CaseTable

/-! # Lower case

The full Unicode mapping of a text to lower case. One letter looks around: a capital sigma becomes
a final sigma at the end of a word, that is after a cased letter and not before one, characters
that case ignores aside. -/

namespace Preflight
set_option autoImplicit false

def inRanges (table : List (Nat × Nat)) (c : Char) : Bool :=
  table.any fun (first, last) => first ≤ c.toNat && c.toNat ≤ last

def isCased (c : Char) : Bool :=
  if c.toNat < 128 then c.isAlpha else inRanges CaseTable.cased c

def isCaseIgnorable (c : Char) : Bool := inRanges CaseTable.caseIgnorable c

def CaseTable.Row.contains (row : CaseTable.Row) (n : Nat) : Bool :=
  row.first ≤ n && n ≤ row.last && (n - row.first) % row.step == 0

/-- The lower-case form of a character by itself. One has two characters. -/
def lowercaseChar (c : Char) : List Char :=
  if c.toNat < 128 then [c.toLower]
  else if c = 'İ' then ['i', '\u0307']
  else match CaseTable.lower.find? (·.contains c.toNat) with
    | none => [c]
    | some row => [.ofNat (c.toNat + row.shift).toNat]

def wordContinues (text : List Char) : Bool :=
  (text.dropWhile isCaseIgnorable).head?.any isCased

/-- `inWord` tells whether the text before ends in a cased letter, characters that case ignores
aside. -/
def lowercaseFrom (inWord : Bool) : List Char → List Char
  | [] => []
  | c :: text =>
    let lower :=
      if c = 'Σ' then (if inWord && !wordContinues text then ['ς'] else ['σ'])
      else lowercaseChar c
    lower ++ lowercaseFrom (if isCaseIgnorable c then inWord else isCased c) text

def lowercase (text : String) : String := .ofList (lowercaseFrom false text.toList)

end Preflight
