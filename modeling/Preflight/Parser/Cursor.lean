import Preflight.Expr
import Preflight.Text.Utf8

/-! # The cursor of the expression parser

An expression stands on one line. The cursor holds what is left of it, how many bytes were taken,
and the next free node index. Columns in errors are byte offsets counted from one. -/

namespace Preflight
set_option autoImplicit false

inductive SyntaxError where
  | severalLines
  | unexpectedEnd
  | unexpected (rest : String) (column : Nat)
  | expected (token : String) (column : Nat)
  | expectedPropertyName (column : Nat)
  | expectedLoopVariable (column : Nat)
  | expectedKey (column : Nat)
  /-- A quoted key with a hole in it. -/
  | computedKey (column : Nat)
  | unterminatedString (column : Nat)
  | danglingEscape (column : Nat)
  | integerTooLarge (column : Nat)
  | integerTooSmall (column : Nat)
deriving DecidableEq, Repr

def SyntaxError.message : SyntaxError → String
  | severalLines => "fixture expressions must fit on one line"
  | unexpectedEnd => "unexpected end of expression"
  | unexpected rest column => s!"unexpected `{rest}` at column {column}"
  | expected token column => s!"expected `{token}` at column {column}"
  | expectedPropertyName column => s!"expected a property name at column {column}"
  | expectedLoopVariable column => s!"expected a loop variable at column {column}"
  | expectedKey column => s!"expected an object key at column {column}"
  | computedKey column => s!"object keys must be literal at column {column}"
  | unterminatedString column => s!"unterminated string starting at column {column}"
  | danglingEscape column => s!"dangling escape at column {column}"
  | integerTooLarge column =>
    s!"invalid integer at column {column}: number too large to fit in target type"
  | integerTooSmall column =>
    s!"invalid integer at column {column}: number too small to fit in target type"

structure Cursor where
  rest : List Char
  offset : Nat := 0
  next : Nat := 0
deriving DecidableEq, Repr

def Cursor.advance (n : Nat) (c : Cursor) : Cursor :=
  { c with rest := c.rest.drop n, offset := c.offset + utf8Length (c.rest.take n) }

abbrev Parser := StateT Cursor (Except SyntaxError)

def isBlank (c : Char) : Bool := c == ' ' || c == '\t'

def isNameStart (c : Char) : Bool := c.isAlpha || c == '_'

def isNameChar (c : Char) : Bool := c.isAlphanum || c == '_'

structure NameAt where
  name : String
  span : Span
deriving DecidableEq, Repr

namespace Parser

def rest : Parser (List Char) := return (← get).rest

def offset : Parser Nat := return (← get).offset

def column : Parser Nat := return (← offset) + 1

def skip (n : Nat) : Parser Unit := modify (·.advance n)

def skipBlanks : Parser Unit := do
  skip ((← rest).takeWhile isBlank).length

/-- Passes blanks, then `token` if it stands there. -/
def eat (token : String) : Parser Bool := do
  skipBlanks
  if token.toList.isPrefixOf (← rest) then
    skip token.length
    return true
  else
    return false

def expect (token : String) : Parser Unit := do
  unless ← eat token do
    throw (.expected token (← column))

/-- Whether the word stands here and no longer name does. -/
def atKeyword (word : String) : Parser Bool := do
  let text ← rest
  return word.toList.isPrefixOf text && !(text.drop word.length).head?.any isNameChar

def spanFrom (start : Nat) : Parser Span := return .inLine start (← offset)

def freshIndex : Parser Nat := modifyGet fun c => (c.next, { c with next := c.next + 1 })

/-- The node of a tree that began at `start` and ends here. It is numbered after its children. -/
def node (start : Nat) : Parser Node := return ⟨← spanFrom start, ← freshIndex⟩

/-- A name after blanks, if one stands there. -/
def name? : Parser (Option NameAt) := do
  skipBlanks
  let start ← offset
  let text ← rest
  if text.head?.any isNameStart then
    let name := text.takeWhile isNameChar
    skip name.length
    return some ⟨.ofList name, ← spanFrom start⟩
  else
    return none

def declare (v : NameAt) : Parser LocalVar :=
  return { node := ⟨v.span, ← freshIndex⟩, name := v.name }

end Parser

end Preflight
