import Preflight.Blueprint.Basic
import Preflight.Parser.Expression
import Preflight.Program

/-! # Writing declarations

The source text is written from left to right, and each expression is read where it was written.
A draft is the text so far, the position at its end, and the next free node index. -/

namespace Preflight
set_option autoImplicit false

structure Draft where
  text : String := ""
  position : Position := {}
  next : Nat := 0
deriving DecidableEq, Repr

abbrev Writer := StateT Draft (Except DeclarationError)

namespace Draft

def write (text : String) (d : Draft) : Draft :=
  let size := text.utf8ByteSize
  { d with
    text := d.text ++ text
    position := { d.position with
      bytes := d.position.bytes + size
      offset := d.position.offset + size } }

def newline (d : Draft) : Draft :=
  { d with
    text := d.text.push '\n'
    position := { lines := d.position.lines + 1, bytes := 0, offset := d.position.offset + 1 } }

def line (text : String) (d : Draft) : Draft := (d.write text).newline

end Draft

namespace Writer

def write (text : String) : Writer Unit := modify (·.write text)

def newline : Writer Unit := modify Draft.newline

def position : Writer Position := return (← get).position

def spanFrom (start : Position) : Writer Span := return .upTo start (← position).offset

def freshIndex : Writer Nat := modifyGet fun d => (d.next, { d with next := d.next + 1 })

def node (start : Position) : Writer Node := return ⟨← spanFrom start, ← freshIndex⟩

def ident (name : String) : Writer Ident := do
  let start ← position
  write name
  return { span := ← spanFrom start, name }

def localVar (v : Ident) : Writer LocalVar :=
  return { node := ⟨v.span, ← freshIndex⟩, name := v.name }

def expr (property : Option String) (text : String) : Writer Expr := do
  let start ← position
  write text
  match Reading.parse text with
  | .error cause => throw (.expression property text cause)
  | .ok reading =>
    let first ← modifyGet fun d => (d.next, { d with next := d.next + reading.indices })
    return reading.expr.place start first

/-- `key: value` on a line of its own. -/
def property (key text : String) : Writer (Property Expr) := do
  write "  "
  let start ← position
  write key
  write ": "
  let value ← expr (some key) text
  let span ← spanFrom start
  newline
  return { span, key, value }

def object (properties : Std.TreeMap String String) : Writer Expr := do
  let start ← position
  write "\x7b"
  newline
  let properties ← properties.toList.mapM fun (key, text) => property key text
  write "\x7d"
  return .object (← node start) properties

def conditional (condition : Option String) (properties : Std.TreeMap String String) :
    Writer Body := do
  let some condition := condition | return .object (← object properties)
  let start ← position
  write "if ("
  let condition ← expr none condition
  write ") "
  let value ← object properties
  return .conditional (← spanFrom start) condition (.object value)

def loopVariables (loop : LoopSpec) : Writer (Ident × Option Ident) := do
  let some index := loop.index | return (← ident loop.item, none)
  write "("
  let item ← ident loop.item
  write ", "
  let index ← ident index
  write ")"
  return (item, some index)

def body (loop : Option LoopSpec) (condition : Option String)
    (properties : Std.TreeMap String String) : Writer Body := do
  let some loop := loop | conditional condition properties
  let start ← position
  write "[for "
  let (item, index) ← loopVariables loop
  write " in "
  let collection ← expr none loop.collection
  write ": "
  let item ← localVar item
  let index ← index.mapM localVar
  let inner ← conditional condition properties
  write "]"
  return .loop { span := ← spanFrom start, item, index, collection } inner

end Writer

def ResourceSpec.usualProperties : List String :=
  ["name", "location", "tags", "properties", "kind", "sku", "parent", "scope", "dependsOn"]

def ModuleSpec.usualProperties : List String := ["name", "params", "scope", "dependsOn"]

/-- The object type of a body with the given properties. Only a name is required. -/
def bodyType (name : String) (properties : List String) : ObjectType :=
  properties.foldl (fun type p => type.withProperty p .any (p == "name")) { name }

def declaredType (loop : Option LoopSpec) (type : TypeRef) : TypeRef :=
  if loop.isSome then .array type else type

def ResourceSpec.type (spec : ResourceSpec) (reference : ResourceType) : TypeRef :=
  let object := bodyType spec.typeText (spec.bodyProperties.getD usualProperties)
  let body :=
    if spec.discriminated then .discriminated spec.typeText "kind" [("default", object)]
    else .object object
  declaredType spec.loop (.resource reference body)

def ModuleSpec.type (spec : ModuleSpec) : TypeRef :=
  let object := bodyType spec.path (spec.bodyProperties.getD usualProperties)
  declaredType spec.loop (.module spec.path (.object object))

namespace Writer

def resource (spec : ResourceSpec) (symbol : SymbolId) : Writer ResourceDecl := do
  let reference ← match ResourceType.parse spec.typeText with
    | .error cause => throw (.type cause)
    | .ok reference => pure reference
  let start ← position
  write "resource "
  let name ← ident spec.name
  write s!" '{spec.typeText}' "
  if spec.existing then
    write "existing "
  write "= "
  let body ← body spec.loop spec.condition spec.properties
  let span ← spanFrom start
  newline
  return {
    span, symbol, name, body
    typeText := spec.typeText
    existing := spec.existing
    type := spec.type reference }

def module (spec : ModuleSpec) (symbol : SymbolId) : Writer ModuleDecl := do
  let start ← position
  write "module "
  let name ← ident spec.name
  write s!" '{spec.path}' = "
  let body ← body spec.loop spec.condition spec.properties
  let span ← spanFrom start
  newline
  return {
    span, symbol, name, body
    path := spec.path
    type := spec.type }

end Writer

end Preflight
