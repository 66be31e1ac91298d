import Preflight.Parser.Cursor

/-! # The expression parser

Each rule takes the parser `expr` for the expressions nested inside it. `Parser.expr n` ties the
knot for texts of at most `n` characters: a rule passes at least one character before it reads a
nested expression, and each turn of a loop passes one too, so `n` bounds them all and is never
what ends a reading. A node is numbered after its children; the span of an expression that ends
in an operand runs up to the next token, blanks included. -/

namespace Preflight
set_option autoImplicit false

/-- The binary operators, loosest level first. Of two tokens on a level, one that begins the other
stands after it. -/
def BinaryOp.levels : List (List BinaryOp) :=
  [[.coalesce], [.or], [.and], [.eq, .ne, .eqInsensitive, .neInsensitive], [.le, .ge, .lt, .gt],
   [.add, .sub], [.mul, .div, .mod]]

/-- What ends a run of literal text. -/
inductive Terminator where
  | quote | hole | backslash | nothing
deriving DecidableEq, Repr

/-- A run of literal text with its escapes resolved, the number of characters it takes together
with its terminator, and the terminator. -/
structure LiteralRun where
  text : List Char
  length : Nat
  terminator : Terminator
deriving DecidableEq, Repr

/-- A backslash stands for the character after it. -/
def LiteralRun.scan : List Char → LiteralRun
  | [] => ⟨[], 0, .nothing⟩
  | '\'' :: _ => ⟨[], 1, .quote⟩
  | ['\\'] => ⟨[], 1, .backslash⟩
  | '\\' :: c :: text =>
    let run := scan text
    { run with text := c :: run.text, length := run.length + 2 }
  | '$' :: '{' :: _ => ⟨[], 2, .hole⟩
  | c :: text =>
    let run := scan text
    { run with text := c :: run.text, length := run.length + 1 }

def decimalValue (digits : List Char) : Nat :=
  digits.foldl (fun value d => 10 * value + (d.toNat - '0'.toNat)) 0

/-- A minus sign right before a digit belongs to the number. -/
def UnaryOp.at? : List Char → Option UnaryOp
  | '!' :: _ => some .not
  | '-' :: text => if text.head?.any Char.isDigit then none else some .minus
  | _ => none

namespace Parser

/-- Segments and holes up to the closing quote of the string that began at `start`. -/
def segments (expr : Parser Expr) (start : Nat) : Nat → Parser (List String × List Expr)
  | 0 => throw (.unterminatedString (start + 1))
  | n + 1 => do
    let run := LiteralRun.scan (← rest)
    let segment := String.ofList run.text
    skip run.length
    match run.terminator with
    | .nothing => throw (.unterminatedString (start + 1))
    | .backslash => throw (.danglingEscape (← offset))
    | .quote => return ([segment], [])
    | .hole =>
      let hole ← expr
      expect "\x7d"
      let (segments, holes) ← segments expr start n
      return (segment :: segments, hole :: holes)

def string (n : Nat) (expr : Parser Expr) : Parser Expr := do
  let start ← offset
  skip 1
  let (segments, holes) ← segments expr start n
  return .string (← node start) segments holes

/-- Integers have 64 bits with a sign: they go from minus this bound up to but not including it. -/
def integerBound : Nat := 0x8000000000000000

def integer : Parser Expr := do
  let start ← offset
  let negative := (← rest).head? == some '-'
  if negative then
    skip 1
  let digits := (← rest).takeWhile Char.isDigit
  skip digits.length
  let value := decimalValue digits
  if negative then
    unless value ≤ integerBound do
      throw (.integerTooSmall (start + 1))
    return .int (← node start) (-value)
  else
    unless value < integerBound do
      throw (.integerTooLarge (start + 1))
    return .int (← node start) value

/-- One or more expressions up to `close`. -/
def items (expr : Parser Expr) (close : String) : Nat → Parser (List Expr)
  | 0 => throw .unexpectedEnd
  | n + 1 => do
    let item ← expr
    if ← eat close then
      return [item]
    expect ","
    return item :: (← items expr close n)

/-- Expressions up to `close`. -/
def list (n : Nat) (expr : Parser Expr) (close : String) : Parser (List Expr) := do
  if ← eat close then
    return []
  items expr close n

/-- One or more names up to a closing parenthesis. -/
def moreParameters : Nat → Parser (Option (List NameAt))
  | 0 => return none
  | n + 1 => do
    let some name ← name? | return none
    if ← eat ")" then
      return some [name]
    if ← eat "," then
      return (← moreParameters n).map (name :: ·)
    return none

/-- A parenthesised parameter list with its arrow. Where there is none, nothing is passed. -/
def parameters? (n : Nat) : Parser (Option (List NameAt)) := do
  let before ← get
  skip 1
  let params ← if ← eat ")" then pure (some []) else moreParameters n
  if params.isSome && (← eat "=>") then
    return params
  set before
  return none

def lambda (expr : Parser Expr) (start : Nat) (params : List NameAt) : Parser Expr := do
  let params ← params.mapM declare
  let body ← expr
  return .lambda (← node start) params body

def parenthesized (n : Nat) (expr : Parser Expr) : Parser Expr := do
  let start ← offset
  match ← parameters? n with
  | some params => lambda expr start params
  | none =>
    skip 1
    let inner ← expr
    expect ")"
    return inner

def loopVariable : Parser NameAt := do
  skipBlanks
  let column ← column
  let some name ← name? | throw (.expectedLoopVariable column)
  return name

/-- An item variable, or an item and an index variable in parentheses. -/
def loopVariables : Parser (NameAt × Option NameAt) := do
  if ← eat "(" then
    let item ← loopVariable
    expect ","
    let index ← loopVariable
    expect ")"
    return (item, some index)
  else
    return (← loopVariable, none)

/-- The rest of a loop that began at `start`, after its keyword. -/
def loop (expr : Parser Expr) (start : Nat) : Parser Expr := do
  let (item, index) ← loopVariables
  skipBlanks
  unless ← atKeyword "in" do
    throw (.expected "in" (← column))
  skip "in".length
  let collection ← expr
  expect ":"
  let item ← declare item
  let index ← index.mapM declare
  let body ← expr
  expect "]"
  return .loop (← node start) item index collection body

def arrayOrLoop (n : Nat) (expr : Parser Expr) : Parser Expr := do
  let start ← offset
  skip 1
  skipBlanks
  if ← atKeyword "for" then
    skip "for".length
    loop expr start
  else
    let items ← list n expr "]"
    return .array (← node start) items

/-- A bare name, or a string without holes. -/
def key (n : Nat) (expr : Parser Expr) : Parser String := do
  skipBlanks
  let column ← column
  if (← rest).head? == some '\'' then
    let some literal := (← string n expr).literal? | throw (.computedKey column)
    return literal
  else
    let some name ← name? | throw (.expectedKey column)
    return name.name

/-- One or more properties up to a closing brace. -/
def properties (expr : Parser Expr) : Nat → Parser (List (Property Expr))
  | 0 => do throw (.expectedKey (← column))
  | n + 1 => do
    skipBlanks
    let start ← offset
    let key ← key (n + 1) expr
    expect ":"
    let value ← expr
    let property := { span := ← spanFrom start, key, value }
    if ← eat "\x7d" then
      return [property]
    expect ","
    return property :: (← properties expr n)

def object (n : Nat) (expr : Parser Expr) : Parser Expr := do
  let start ← offset
  skip 1
  let properties ← if ← eat "\x7d" then pure [] else properties expr n
  return .object (← node start) properties

/-- What a name begins: a literal, a lambda of one parameter, a call, or a reference. -/
def named (n : Nat) (expr : Parser Expr) (start : Nat) (name : NameAt) : Parser Expr := do
  match name.name with
  | "true" => return .bool (← node start) true
  | "false" => return .bool (← node start) false
  | "null" => return .null (← node start)
  | text =>
    if ← eat "=>" then
      lambda expr start [name]
    else if ← eat "(" then
      let args ← list n expr ")"
      return .call (← node start) none text args
    else
      return .var ⟨name.span, ← freshIndex⟩ text

def primary (n : Nat) (expr : Parser Expr) : Parser Expr := do
  skipBlanks
  let start ← offset
  match ← rest with
  | [] => throw .unexpectedEnd
  | '\'' :: _ => string n expr
  | '(' :: _ => parenthesized n expr
  | '[' :: _ => arrayOrLoop n expr
  | '{' :: _ => object n expr
  | c :: text =>
    if c.isDigit || c == '-' then
      integer
    else
      let some name ← name? | throw (.unexpected (.ofList (c :: text)) (start + 1))
      named n expr start name

/-- Property accesses, subscripts and calls on `base`, which began at `start`. -/
def suffixes (m : Nat) (expr : Parser Expr) (start : Nat) : Nat → Expr → Parser Expr
  | 0, base => return base
  | n + 1, base => do
    skipBlanks
    match ← rest with
    | '.' :: _ =>
      skip 1
      let some name ← name? | throw (.expectedPropertyName (← column))
      if ← eat "(" then
        let args ← list m expr ")"
        suffixes m expr start n (.call (← node start) (some base) name.name args)
      else
        suffixes m expr start n (.member (← node start) base name.name)
    | '[' :: _ =>
      skip 1
      let key ← expr
      expect "]"
      suffixes m expr start n (.subscript (← node start) base key)
    | _ => return base

def postfixed (n : Nat) (expr : Parser Expr) : Parser Expr := do
  skipBlanks
  let start ← offset
  let base ← primary n expr
  suffixes n expr start n base

def prefixed (operand : Parser Expr) : Nat → Parser Expr
  | 0 => operand
  | n + 1 => do
    skipBlanks
    let start ← offset
    match UnaryOp.at? (← rest) with
    | none => operand
    | some op =>
      skip 1
      let inner ← prefixed operand n
      return .unary (← node start) op inner

/-- The operator of one level that stands here. -/
def operator? (level : List BinaryOp) : Parser (Option BinaryOp) := do
  skipBlanks
  let text ← rest
  match level.find? fun op => op.token.toList.isPrefixOf text with
  | none => return none
  | some op =>
    skip op.token.length
    return some op

/-- Further operands of one level, joined to `lhs` from the left. -/
def chain (operand : Parser Expr) (level : List BinaryOp) (start : Nat) : Nat → Expr → Parser Expr
  | 0, lhs => return lhs
  | n + 1, lhs => do
    match ← operator? level with
    | none => return lhs
    | some op =>
      let rhs ← operand
      chain operand level start n (.binary (← node start) op lhs rhs)

def binary (n : Nat) (operand : Parser Expr) : List (List BinaryOp) → Parser Expr
  | [] => operand
  | level :: tighter => do
    skipBlanks
    let start ← offset
    let lhs ← binary n operand tighter
    chain (binary n operand tighter) level start n lhs

def conditional (n : Nat) (expr : Parser Expr) : Parser Expr := do
  skipBlanks
  let start ← offset
  let condition ← binary n (prefixed (postfixed n expr) n) BinaryOp.levels
  skipBlanks
  if (← rest).head? == some '?' then
    skip 1
    let ifTrue ← expr
    expect ":"
    let ifFalse ← expr
    return .ternary (← node start) condition ifTrue ifFalse
  else
    return condition

/-- An expression at the start of a text of at most `n` characters. -/
def expr : Nat → Parser Expr
  | 0 => throw .unexpectedEnd
  | n + 1 => conditional (n + 1) (expr n)

/-- An expression that is the whole text, blanks around it aside. -/
def whole (n : Nat) : Parser Expr := do
  let e ← expr n
  skipBlanks
  let text ← rest
  unless text.isEmpty do
    throw (.unexpected (.ofList text) (← column))
  return e

end Parser

/-- A text that was read: its tree, with spans in that text and node indices from zero, and how
many indices were given out. -/
structure Reading where
  expr : Expr
  indices : Nat
deriving Repr

/-- Reads an expression, which stands on one line. -/
def Reading.parse (text : String) : Except SyntaxError Reading := do
  let chars := text.toList
  if '\n' ∈ chars then
    throw .severalLines
  let (expr, cursor) ← (Parser.whole chars.length).run { rest := chars }
  return { expr, indices := cursor.next }

end Preflight
