/-! # Options

Which checks run. Options are written in JSON: an object with any of the three names, each at most
once, or an array of up to three truth values in the order of the names. What is left out is
on. -/

namespace Preflight
set_option autoImplicit false

structure Options where
  detectDuplicateNames : Bool := true
  detectIncorrectlyFormattedNames : Bool := true
  detectLoopInvariantProperties : Bool := true
deriving DecidableEq, Repr

namespace Options

inductive Key where
  | detectDuplicateNames | detectIncorrectlyFormattedNames | detectLoopInvariantProperties
deriving DecidableEq, Repr

def Key.all : List Key :=
  [.detectDuplicateNames, .detectIncorrectlyFormattedNames, .detectLoopInvariantProperties]

def Key.text : Key → String
  | detectDuplicateNames => "detectDuplicateNames"
  | detectIncorrectlyFormattedNames => "detectIncorrectlyFormattedNames"
  | detectLoopInvariantProperties => "detectLoopInvariantProperties"

def Key.ofText? (text : String) : Option Key := all.find? (·.text == text)

def set (options : Options) (value : Bool) : Key → Options
  | .detectDuplicateNames => { options with detectDuplicateNames := value }
  | .detectIncorrectlyFormattedNames => { options with detectIncorrectlyFormattedNames := value }
  | .detectLoopInvariantProperties => { options with detectLoopInvariantProperties := value }

def ofEntries (entries : List (Key × Bool)) : Options :=
  entries.foldl (fun options (key, value) => options.set value key) {}

/-! ## JSON -/

def isJsonBlank (c : Char) : Bool := c == ' ' || c == '\t' || c == '\n' || c == '\r'

def skipBlanks (text : List Char) : List Char := text.dropWhile isJsonBlank

/-- What follows a word or sign, blanks before it aside. -/
def after? (token : String) (text : List Char) : Option (List Char) :=
  let text := skipBlanks text
  if token.toList.isPrefixOf text then some (text.drop token.length) else none

def bool? (text : List Char) : Option (Bool × List Char) :=
  match after? "true" text with
  | some rest => some (true, rest)
  | none => (after? "false" text).map ((false, ·))

def hexDigit? (c : Char) : Option Nat :=
  if c.isDigit then some (c.toNat - '0'.toNat)
  else if 'a' ≤ c ∧ c ≤ 'f' then some (c.toNat - 'a'.toNat + 10)
  else if 'A' ≤ c ∧ c ≤ 'F' then some (c.toNat - 'A'.toNat + 10)
  else none

def shortEscape? : Char → Option Char
  | '"' => some '"'
  | '\\' => some '\\'
  | '/' => some '/'
  | 'b' => some '\x08'
  | 'f' => some '\x0c'
  | 'n' => some '\n'
  | 'r' => some '\r'
  | 't' => some '\t'
  | _ => none

/-- The rest of a string up to its closing quote. A code unit that is no character by itself is
refused: no option has such a name. -/
def stringRest? : List Char → Option (List Char × List Char)
  | [] => none
  | '"' :: rest => some ([], rest)
  | '\\' :: 'u' :: a :: b :: c :: d :: rest => do
    let n := (((← hexDigit? a) * 16 + (← hexDigit? b)) * 16 + (← hexDigit? c)) * 16 + (← hexDigit? d)
    guard n.isValidChar
    let (text, rest) ← stringRest? rest
    return (Char.ofNat n :: text, rest)
  | '\\' :: e :: rest => do
    let c ← shortEscape? e
    let (text, rest) ← stringRest? rest
    return (c :: text, rest)
  | c :: rest => do
    guard (0x20 ≤ c.toNat ∧ c ≠ '\\')
    let (text, rest) ← stringRest? rest
    return (c :: text, rest)

def key? (text : List Char) : Option (Key × List Char) := do
  let (name, rest) ← stringRest? (← after? "\"" text)
  return (← Key.ofText? (.ofList name), rest)

/-- `"key": value` pairs up to the closing brace, at most `n` of them, without the keys in `seen`. -/
def entries? : Nat → List Key → List Char → Option (List (Key × Bool) × List Char)
  | 0, _, _ => none
  | n + 1, seen, text => do
    let (key, text) ← key? text
    guard (key ∉ seen)
    let (value, text) ← bool? (← after? ":" text)
    match after? "\x7d" text with
    | some rest => return ([(key, value)], rest)
    | none =>
      let (entries, rest) ← entries? n (key :: seen) (← after? "," text)
      return ((key, value) :: entries, rest)

/-- Values for the given keys up to the closing bracket. -/
def values? : List Key → List Char → Option (List (Key × Bool) × List Char)
  | [], _ => none
  | key :: keys, text => do
    let (value, text) ← bool? text
    match after? "]" text with
    | some rest => return ([(key, value)], rest)
    | none =>
      let (entries, rest) ← values? keys (← after? "," text)
      return ((key, value) :: entries, rest)

/-- Nothing between two brackets, or what `content?` reads together with the closing one. -/
def bracketed? (opening closing : String)
    (content? : List Char → Option (List (Key × Bool) × List Char)) (text : List Char) :
    Option (List (Key × Bool) × List Char) := do
  let text ← after? opening text
  match after? closing text with
  | some rest => return ([], rest)
  | none => content? text

def ofJson? (json : String) : Option Options := do
  let text := json.toList
  let (entries, rest) ←
    bracketed? "\x7b" "\x7d" (entries? Key.all.length []) text <|>
      bracketed? "[" "]" (values? Key.all) text
  guard (skipBlanks rest).isEmpty
  return ofEntries entries

end Options

end Preflight
