import Preflight.Binding
import Preflight.Parser.Cursor

/-! # Reading and binding at once

A text may be read where it was written, with the names bound while its tree grows. The state of
such a reading is a byte offset into the text and what a binder holds. The text is looked at through
its bytes and through slices of it, and either may miss: a slice is refused where it does not begin
and end between characters. -/

namespace Preflight
set_option autoImplicit false

/-- The bytes of a text, each told as the character of that number. -/
def utf8Bytes (text : List Char) : List Char :=
  text.flatMap fun c => (String.utf8EncodeChar c).map Char.ofUInt8

namespace OnePass

/-- The symbols so far, what the names in sight stand for, the innermost first, and the next free
node index. -/
structure BinderState where
  symbols : SymbolTable := {}
  globals : Names := []
  locals : Names := []
  next : Nat := 0

namespace BinderState

def resolve (b : BinderState) (name : String) : Option SymbolId :=
  b.locals.lookup name <|> b.globals.lookup name

def declareGlobal (name : String) (kind : SymbolKind) (b : BinderState) : BinderState :=
  { b with
    symbols := b.symbols.declare name kind
    globals := (name, b.symbols.nextId) :: b.globals }

/-- Keeps the outermost variables only. -/
def truncate (height : Nat) (b : BinderState) : BinderState :=
  { b with locals := b.locals.drop (b.locals.length - height) }

def bind (index : Nat) (id : SymbolId) (b : BinderState) : Except BindError BinderState :=
  return { b with symbols := ← b.symbols.bind index id }

/-- A variable with a symbol of its own, in sight until the locals are truncated. -/
def declareLocal (v : NameAt) (b : BinderState) : Except BindError (LocalVar × BinderState) := do
  let id := b.symbols.nextId
  let symbols ← (b.symbols.declare v.name .localVar).bind b.next id
  let declared := { node := ⟨v.span, b.next⟩, name := v.name }
  return (declared, { b with symbols, locals := (v.name, id) :: b.locals, next := b.next + 1 })

end BinderState

/-- One change of the cursor. A move back notes what the binder held where it leads to and what it
holds now. -/
inductive Move where
  | forward (start stop : Nat)
  | back (start stop : Nat) (before after : BinderState)

/-- Every move of the cursor is kept on the trail, which no rule looks at. -/
structure Session where
  offset : Nat := 0
  binder : BinderState := {}
  trail : List Move := []

inductive Failure where
  | parse (cause : SyntaxError)
  | binding (cause : BindError)
  /-- A slice that does not begin and end between characters of the text. -/
  | slice (start : Nat)
  /-- A number that has none. -/
  | noDigits
deriving DecidableEq, Repr

/-- A reading that may fail, or may nest more calls than it is allowed to. -/
abbrev Reader (α : Type) := ExceptT Failure (StateT Session Option) α

/-- What a reading comes to. -/
def Reader.outcome {α : Type} (p : Reader α) (s : Session) : Option (Except Failure α × Session) :=
  StateT.run (ExceptT.run p) s

def offset : Reader Nat := return (← get).offset

def column : Reader Nat := return (← offset) + 1

def fail {α : Type} (cause : SyntaxError) : Reader α := throw (.parse cause)

/-- No call may be nested here. -/
def tooDeep {α : Type} : Reader α := ExceptT.lift (StateT.lift none)

def advance (n : Nat) : Reader Unit :=
  modify fun s => { s with
    offset := s.offset + n
    trail := .forward s.offset (s.offset + n) :: s.trail }

/-- Puts the cursor back to where it was. What the binder holds stays. -/
def moveBack (before : Session) : Reader Unit :=
  modify fun s => { s with
    offset := before.offset
    trail := .back s.offset before.offset before.binder s.binder :: s.trail }

def lift {α : Type} (step : BinderState → Except BindError (α × BinderState)) : Reader α := do
  match step (← get).binder with
  | .error cause => throw (.binding cause)
  | .ok (a, binder) =>
    modify fun s => { s with binder }
    return a

def freshIndex : Reader Nat :=
  modifyGet fun s =>
    (s.binder.next, { s with binder := { s.binder with next := s.binder.next + 1 } })

def declareLocal (v : NameAt) : Reader LocalVar := lift (BinderState.declareLocal v)

/-- Binds the node if the name stands for something. -/
def reference (index : Nat) (name : String) : Reader Unit := do
  match (← get).binder.resolve name with
  | none => return
  | some id => lift fun b => return ((), ← b.bind index id)

/-- Ends what was read with variables in sight: however it came out, they are in sight no longer. -/
def leave {α : Type} (height : Nat) (result : Except Failure α) : Reader α := do
  modify fun s => { s with binder := s.binder.truncate height }
  match result with
  | .ok a => return a
  | .error cause => throw cause

section

variable (text : List Char)

def byteAt (i : Nat) : Reader (Option Char) := return (utf8Bytes text)[i]?

def peek : Reader (Option Char) := do
  byteAt text (← offset)

/-- What is left of the text. -/
def rest : Reader (List Char) := do
  match splitBytes? (← offset) text with
  | some (_, rest) => return rest
  | none => throw (.slice (← offset))

/-- What stands between an offset and the cursor. -/
def sliceFrom (start : Nat) : Reader (List Char) := do
  match slice? text start (← offset) with
  | some slice => return slice
  | none => throw (.slice start)

/-- Passes bytes while they are of a kind, given the bytes that are left. -/
def passWhile (p : Char → Bool) : List Char → Reader Unit
  | [] => return
  | b :: bytes => do
    if p b then
      advance 1
      passWhile p bytes

def skipWhile (p : Char → Bool) : Reader Unit := do
  passWhile p ((utf8Bytes text).drop (← offset))

def skipBlanks : Reader Unit := skipWhile text isBlank

/-- Passes blanks, then `token` if it stands there. -/
def eat (token : String) : Reader Bool := do
  skipBlanks text
  if token.toList.isPrefixOf (← rest text) then
    advance token.utf8ByteSize
    return true
  else
    return false

def expect (token : String) : Reader Unit := do
  unless ← eat text token do
    fail (.expected token (← column))

def atKeyword (word : String) : Reader Bool := do
  let found := word.toList.isPrefixOf (← rest text)
  let next ← byteAt text ((← offset) + word.utf8ByteSize)
  return found && !next.any isNameChar

end

section

variable (base : Position)

/-- The span in the file that the text stands in. -/
def spanFrom (start : Nat) : Reader Span := return (Span.inLine start (← offset)).shift base

/-- The node of a tree that began at `start` and ends here. It is numbered after its children. -/
def node (start : Nat) : Reader Node := return ⟨← spanFrom base start, ← freshIndex⟩

end

/-- A name after blanks, if one stands there. -/
def name? (text : List Char) (base : Position) : Reader (Option NameAt) := do
  skipBlanks text
  let start ← offset
  if (← peek text).any isNameStart then
    advance 1
    skipWhile text isNameChar
    return some ⟨.ofList (← sliceFrom text start), ← spanFrom base start⟩
  else
    return none

end OnePass

end Preflight
