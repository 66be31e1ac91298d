import Preflight.OnePass.Session
import Preflight.Parser.Expression

/-! # The rules of a reading in one pass

Each rule that calls itself, by itself or through others, takes how deep its calls may nest. Where
they nest deeper, there is no answer. -/

namespace Preflight
set_option autoImplicit false

namespace OnePass

variable (text : List Char) (base : Position)

/-- An optional sign and digits, as a number of 64 bits. -/
def integerValue (column : Nat) : List Char → Except Failure Int
  | '-' :: digits =>
    if digits.isEmpty then .error .noDigits
    else if decimalValue digits ≤ Parser.integerBound then .ok (-decimalValue digits)
    else .error (.parse (.integerTooSmall column))
  | digits =>
    if digits.isEmpty then .error .noDigits
    else if decimalValue digits < Parser.integerBound then .ok (decimalValue digits)
    else .error (.parse (.integerTooLarge column))

def integer : Reader Expr := do
  let start ← offset
  if (← peek text) == some '-' then
    advance 1
  skipWhile text Char.isDigit
  let value ← liftExcept (integerValue (start + 1) (← sliceFrom text start))
  return .int (← node base start) value

/-- One or more names up to a closing parenthesis. -/
def moreParameters : Nat → Reader (Option (List NameAt))
  | 0 => tooDeep
  | depth + 1 => do
    let some name ← name? text base | return none
    if ← eat text ")" then
      return some [name]
    if ← eat text "," then
      return (← moreParameters depth).map (name :: ·)
    return none

/-- A parenthesised parameter list with its arrow. Where there is none, the cursor goes back. -/
def parameters? (depth : Nat) : Reader (Option (List NameAt)) := do
  let before ← get
  advance 1
  let params ← if ← eat text ")" then pure (some []) else moreParameters text base depth
  if let some params := params then
    if ← eat text "=>" then
      return some params
  moveBack before
  return none

def loopVariable : Reader NameAt := do
  skipBlanks text
  let column ← column
  let some name ← name? text base | fail (.expectedLoopVariable column)
  return name

/-- An item variable, or an item and an index variable in parentheses. -/
def loopVariables : Reader (NameAt × Option NameAt) := do
  if ← eat text "(" then
    let item ← loopVariable text base
    expect text ","
    let index ← loopVariable text base
    expect text ")"
    return (item, some index)
  else
    return (← loopVariable text base, none)

def unaryAt : Option Char → Option Char → Option UnaryOp
  | some '!', _ => some .not
  | some '-', next => if next.any Char.isDigit then none else some .minus
  | _, _ => none

mutual

def expr : Nat → Reader Expr
  | 0 => tooDeep
  | depth + 1 => do
    skipBlanks text
    let start ← offset
    let condition ← binary depth BinaryOp.levels
    skipBlanks text
    if (← peek text) == some '?' then
      advance 1
      let ifTrue ← expr depth
      expect text ":"
      let ifFalse ← expr depth
      return .ternary (← node base start) condition ifTrue ifFalse
    else
      return condition

def binary : Nat → List (List BinaryOp) → Reader Expr
  | 0, _ => tooDeep
  | depth + 1, [] => prefixed depth
  | depth + 1, level :: tighter => do
    skipBlanks text
    let start ← offset
    let lhs ← binary depth tighter
    chain depth level tighter start lhs

/-- Further operands of one level, joined to `lhs` from the left. -/
def chain : Nat → List BinaryOp → List (List BinaryOp) → Nat → Expr → Reader Expr
  | 0, _, _, _, _ => tooDeep
  | depth + 1, level, tighter, start, lhs => do
    skipBlanks text
    let left ← rest text
    match level.find? fun op => op.token.toList.isPrefixOf left with
    | none => return lhs
    | some op =>
      advance op.token.utf8ByteSize
      let rhs ← binary depth tighter
      chain depth level tighter start (.binary (← node base start) op lhs rhs)

def prefixed : Nat → Reader Expr
  | 0 => tooDeep
  | depth + 1 => do
    skipBlanks text
    let start ← offset
    let next ← byteAt text (start + 1)
    match unaryAt (← peek text) next with
    | none => postfixed depth
    | some op =>
      advance 1
      let operand ← prefixed depth
      return .unary (← node base start) op operand

def postfixed : Nat → Reader Expr
  | 0 => tooDeep
  | depth + 1 => do
    skipBlanks text
    let start ← offset
    let inner ← primary depth
    suffixes depth start inner

/-- Property accesses, subscripts and calls on an expression that began at `start`. -/
def suffixes : Nat → Nat → Expr → Reader Expr
  | 0, _, _ => tooDeep
  | depth + 1, start, inner => do
    skipBlanks text
    match ← peek text with
    | some '.' =>
      advance 1
      let some name ← name? text base | fail (.expectedPropertyName (← column))
      skipBlanks text
      if (← peek text) == some '(' then
        advance 1
        let args ← list depth ")"
        suffixes depth start (.call (← node base start) (some inner) name.name args)
      else
        suffixes depth start (.member (← node base start) inner name.name)
    | some '[' =>
      advance 1
      let key ← expr depth
      expect text "]"
      suffixes depth start (.subscript (← node base start) inner key)
    | _ => return inner

/-- Expressions up to `close`. -/
def list : Nat → String → Reader (List Expr)
  | 0, _ => tooDeep
  | depth + 1, close => do
    if ← eat text close then
      return []
    items depth close

/-- One or more expressions up to `close`. -/
def items : Nat → String → Reader (List Expr)
  | 0, _ => tooDeep
  | depth + 1, close => do
    let item ← expr depth
    if ← eat text close then
      return [item]
    expect text ","
    return item :: (← items depth close)

def primary : Nat → Reader Expr
  | 0 => tooDeep
  | depth + 1 => do
    skipBlanks text
    let start ← offset
    match ← peek text with
    | none => fail .unexpectedEnd
    | some '\'' => string depth
    | some '(' => parenthesized depth
    | some '[' => arrayOrLoop depth
    | some '{' => object depth
    | some b =>
      if b.isDigit || b == '-' then
        integer text base
      else
        let some name ← name? text base | fail (.unexpected (.ofList (← rest text)) (← column))
        named depth start name

/-- What a name begins: a literal, a lambda of one parameter, a call, or a reference. -/
def named : Nat → Nat → NameAt → Reader Expr
  | 0, _, _ => tooDeep
  | depth + 1, start, name => do
    match name.name with
    | "true" => return .bool (← node base start) true
    | "false" => return .bool (← node base start) false
    | "null" => return .null (← node base start)
    | word =>
      if ← eat text "=>" then
        lambda depth start [name]
      else if ← eat text "(" then
        let args ← list depth ")"
        return .call (← node base start) none word args
      else
        let index ← freshIndex
        reference index word
        return .var ⟨name.span, index⟩ word

def string : Nat → Reader Expr
  | 0 => tooDeep
  | depth + 1 => do
    let start ← offset
    advance 1
    let (segments, holes) ← segments depth start []
    return .string (← node base start) segments holes

/-- Segments and holes up to the closing quote of the string that began at `start`. The first
segment begins with `segment`. -/
def segments : Nat → Nat → List Char → Reader (List String × List Expr)
  | 0, _, _ => tooDeep
  | depth + 1, start, segment => do
    match ← rest text with
    | [] => fail (.unterminatedString (start + 1))
    | '\'' :: _ =>
      advance 1
      return ([.ofList segment], [])
    | '\\' :: _ =>
      advance 1
      match ← rest text with
      | [] => fail (.danglingEscape (← offset))
      | c :: _ =>
        advance c.utf8Size
        segments depth start (segment ++ [c])
    | '$' :: '{' :: _ =>
      advance 2
      let hole ← expr depth
      expect text "\x7d"
      let (segments, holes) ← segments depth start []
      return (.ofList segment :: segments, hole :: holes)
    | c :: _ =>
      advance c.utf8Size
      segments depth start (segment ++ [c])

def parenthesized : Nat → Reader Expr
  | 0 => tooDeep
  | depth + 1 => do
    let start ← offset
    match ← parameters? text base depth with
    | some params => lambda depth start params
    | none =>
      advance 1
      let inner ← expr depth
      expect text ")"
      return inner

def lambda : Nat → Nat → List NameAt → Reader Expr
  | 0, _, _ => tooDeep
  | depth + 1, start, params => do
    let height := (← get).binder.locals.length
    let (params, body) ← lambdaScope depth height params
    return .lambda (← node base start) params body

/-- The body of a lambda, with its parameters in sight there alone. -/
def lambdaScope : Nat → Nat → List NameAt → Reader (List LocalVar × Expr)
  | 0, _, _ => tooDeep
  | depth + 1, height, params =>
    bind (m := StateT Session Option) (ExceptT.run (lambdaBody depth params)) fun result =>
      leave height result

def lambdaBody : Nat → List NameAt → Reader (List LocalVar × Expr)
  | 0, _ => tooDeep
  | depth + 1, params => do
    let params ← params.mapM declareLocal
    return (params, ← expr depth)

def arrayOrLoop : Nat → Reader Expr
  | 0 => tooDeep
  | depth + 1 => do
    let start ← offset
    advance 1
    skipBlanks text
    if ← atKeyword text "for" then
      advance "for".utf8ByteSize
      loop depth start
    else
      let items ← list depth "]"
      return .array (← node base start) items

/-- The rest of a loop that began at `start`, after its keyword. -/
def loop : Nat → Nat → Reader Expr
  | 0, _ => tooDeep
  | depth + 1, start => do
    let (item, index) ← loopVariables text base
    skipBlanks text
    unless ← atKeyword text "in" do
      fail (.expected "in" (← column))
    advance "in".utf8ByteSize
    let collection ← expr depth
    expect text ":"
    let height := (← get).binder.locals.length
    let (item, index, body) ← loopScope depth height item index
    expect text "]"
    return .loop (← node base start) item index collection body

/-- The body of a loop, with its variables in sight there alone. -/
def loopScope : Nat → Nat → NameAt → Option NameAt → Reader (LocalVar × Option LocalVar × Expr)
  | 0, _, _, _ => tooDeep
  | depth + 1, height, item, index =>
    bind (m := StateT Session Option) (ExceptT.run (loopBody depth item index)) fun result =>
      leave height result

def loopBody : Nat → NameAt → Option NameAt → Reader (LocalVar × Option LocalVar × Expr)
  | 0, _, _ => tooDeep
  | depth + 1, item, index => do
    let item ← declareLocal item
    let index ← index.mapM declareLocal
    return (item, index, ← expr depth)

def object : Nat → Reader Expr
  | 0 => tooDeep
  | depth + 1 => do
    let start ← offset
    advance 1
    let properties ← if ← eat text "\x7d" then pure [] else properties depth
    return .object (← node base start) properties

/-- One or more properties up to a closing brace. -/
def properties : Nat → Reader (List (Property Expr))
  | 0 => tooDeep
  | depth + 1 => do
    skipBlanks text
    let start ← offset
    let key ← key depth
    expect text ":"
    let value ← expr depth
    let property := { span := ← spanFrom base start, key, value }
    if ← eat text "\x7d" then
      return [property]
    expect text ","
    return property :: (← properties depth)

/-- A bare name, or a string without holes. -/
def key : Nat → Reader String
  | 0 => tooDeep
  | depth + 1 => do
    skipBlanks text
    let column ← column
    if (← peek text) == some '\'' then
      let some literal := (← string depth).literal? | fail (.computedKey column)
      return literal
    else
      let some name ← name? text base | fail (.expectedKey column)
      return name.name

end

/-- Reads a text on one line that is an expression, blanks around it aside. -/
def whole (depth : Nat) : Reader Expr := do
  if '\n' ∈ text then
    fail .severalLines
  let e ← expr text base depth
  skipBlanks text
  unless (← offset) == utf8Length text do
    fail (.unexpected (.ofList (← rest text)) (← column))
  return e

/-- Calls that nest as deep as this are enough to read the text. -/
def nesting (text : List Char) : Nat := 16 * (text.length + 1)

/-- Reads a text that stands at a place of a file, with these names in sight. -/
def read (depth : Nat) (text : String) (base : Position) (b : BinderState) :
    Option (Except Failure Expr × Session) :=
  (whole text.toList base depth).outcome { binder := b }

end OnePass

end Preflight
