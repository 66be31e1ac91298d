import Preflight.Blueprint.Build
import Preflight.LineTable
import Preflight.OnePass.Rules

/-! # Building in one pass

A program may be built while its text is written: each expression is read where it was written, and
its names are bound on the way. The variables of a loop are put on the stack of names behind the
collection and are taken off it behind the body. -/

namespace Preflight
set_option autoImplicit false

namespace OnePass

/-- The text so far, the position at its end, and what the binder holds. -/
structure Page where
  text : String := ""
  position : Position := {}
  binder : BinderState := {}

def Page.draft (page : Page) : Draft where
  text := page.text
  position := page.position
  next := page.binder.next

/-- Why building stops: a declaration is at fault, a text is read in vain for another reason, or
something is too deep or too long. -/
inductive Fault (ε : Type) where
  | declared (cause : ε)
  | reading (cause : Failure)
  | tooDeep
  | tooLarge (message : String)

def Fault.map {ε ε' : Type} (f : ε → ε') : Fault ε → Fault ε'
  | declared cause => declared (f cause)
  | reading cause => reading cause
  | tooDeep => tooDeep
  | tooLarge message => tooLarge message

abbrev Builder := StateT Page (Except (Fault DeclarationError))

namespace Builder

/-- A step of a writer, which looks at no name. -/
def write {α : Type} (step : Writer α) : Builder α := fun page =>
  match step.run page.draft with
  | .error cause => .error (.declared cause)
  | .ok (a, draft) => .ok (a, {
      text := draft.text
      position := draft.position
      binder := { page.binder with next := draft.next } })

instance : MonadLift Writer Builder := ⟨write⟩

/-- Reads a text where it is written, with the names in sight. -/
def expr (property : Option String) (text : String) : Builder Expr := do
  let start ← Writer.position
  Writer.write text
  match read (nesting text.toList) text start (← get).binder with
  | none => throw .tooDeep
  | some (.error (.parse cause), _) => throw (.declared (.expression property text cause))
  | some (.error cause, _) => throw (.reading cause)
  | some (.ok e, s) =>
    modify fun page => { page with binder := s.binder }
    return e

/-- A variable comes into sight. -/
def localVar (v : Ident) : Builder LocalVar := do
  match (← get).binder.declareLocal ⟨v.name, v.span⟩ with
  | .error cause => throw (.reading (.binding cause))
  | .ok (x, binder) =>
    modify fun page => { page with binder }
    return x

def property (key text : String) : Builder (Property Expr) := do
  Writer.write "  "
  let start ← Writer.position
  Writer.write key
  Writer.write ": "
  let value ← expr (some key) text
  let span ← Writer.spanFrom start
  Writer.newline
  return { span, key, value }

def object (properties : Std.TreeMap String String) : Builder Expr := do
  let start ← Writer.position
  Writer.write "\x7b"
  Writer.newline
  let properties ← properties.toList.mapM fun (key, text) => property key text
  Writer.write "\x7d"
  return .object (← Writer.node start) properties

def conditional (condition : Option String) (properties : Std.TreeMap String String) :
    Builder Body := do
  let some condition := condition | return .object (← object properties)
  let start ← Writer.position
  Writer.write "if ("
  let condition ← expr none condition
  Writer.write ") "
  let value ← object properties
  return .conditional (← Writer.spanFrom start) condition (.object value)

/-- What is inside of a loop, with its variables in sight there alone. -/
def scope (item : Ident) (index : Option Ident) (condition : Option String)
    (properties : Std.TreeMap String String) :
    Builder (LocalVar × Option LocalVar × Body) := do
  let height := (← get).binder.locals.length
  let item ← localVar item
  let index ← index.mapM localVar
  let inner ← conditional condition properties
  modify fun page => { page with binder := page.binder.truncate height }
  return (item, index, inner)

def body (loop : Option LoopSpec) (condition : Option String)
    (properties : Std.TreeMap String String) : Builder Body := do
  let some loop := loop | conditional condition properties
  let start ← Writer.position
  Writer.write "[for "
  let (item, index) ← Writer.loopVariables loop
  Writer.write " in "
  let collection ← expr none loop.collection
  Writer.write ": "
  let (item, index, inner) ← scope item index condition properties
  Writer.write "]"
  return .loop { span := ← Writer.spanFrom start, item, index, collection } inner

def resource (spec : ResourceSpec) (symbol : SymbolId) : Builder ResourceDecl := do
  let reference ← match ResourceType.parse spec.typeText with
    | .error cause => throw (.declared (.type cause))
    | .ok reference => pure reference
  let start ← Writer.position
  Writer.write "resource "
  let name ← Writer.ident spec.name
  Writer.write s!" '{spec.typeText}' "
  if spec.existing then
    Writer.write "existing "
  Writer.write "= "
  let body ← body spec.loop spec.condition spec.properties
  let span ← Writer.spanFrom start
  Writer.newline
  return {
    span, symbol, name, body
    typeText := spec.typeText
    existing := spec.existing
    type := spec.type reference }

def module (spec : ModuleSpec) (symbol : SymbolId) : Builder ModuleDecl := do
  let start ← Writer.position
  Writer.write "module "
  let name ← Writer.ident spec.name
  Writer.write s!" '{spec.path}' = "
  let body ← body spec.loop spec.condition spec.properties
  let span ← Writer.spanFrom start
  Writer.newline
  return {
    span, symbol, name, body
    path := spec.path
    type := spec.type }

/-- Builds one declaration and notes the lines that it takes. -/
def declaration {α : Type} (name : String) (build : Builder α)
    (context : DeclarationError → BuildError) :
    StateT Page (Except (Fault BuildError)) (α × Extent) := fun before =>
  match build.run before with
  | .error fault => .error (fault.map context)
  | .ok (value, after) =>
    .ok ((value, ⟨name, before.position.lines + 1, after.position.lines⟩), after)

end Builder

/-- Declares a name that is in sight everywhere. -/
def declareGlobal (name : String) (kind : SymbolKind) :
    StateT BinderState (Except (Fault BuildError)) SymbolId := fun binder =>
  match binder.globals.lookup name with
  | some _ => .error (.declared (.repeatedName name))
  | none => .ok (binder.symbols.nextId, binder.declareGlobal name kind)

/-- The resources and modules that were declared, each with the lines that it takes. -/
structure Declarations where
  resources : List (ResourceDecl × Extent)
  modules : List (ModuleDecl × Extent)

namespace Declarations

def program (d : Declarations) (indices : Nat) : Program where
  file := Blueprint.file
  resources := d.resources.map (·.1)
  modules := d.modules.map (·.1)
  indices

def extents (d : Declarations) : List Extent := d.resources.map (·.2) ++ d.modules.map (·.2)

end Declarations

/-- The page on which the first declaration is written. -/
def opening (b : Blueprint) (binder : BinderState) : Page where
  text := b.header.text
  position := b.header.position
  binder

/-- Builds the declarations, whose symbols are given in their order. -/
def declarations (b : Blueprint) (symbols : List SymbolId) :
    StateT Page (Except (Fault BuildError)) Declarations := do
  let resources ← (b.resources.zip symbols).mapM fun (spec, symbol) =>
    Builder.declaration spec.name (Builder.resource spec symbol) (.resource spec.name)
  let modules ← (b.modules.zip (symbols.drop b.resources.length)).mapM fun (spec, symbol) =>
    Builder.declaration spec.name (Builder.module spec symbol) (.module spec.name)
  return { resources, modules }

/-- Refuses a program that is too long for its lines to be told. -/
def sized (built : Build) : Except (Fault BuildError) Build :=
  match LineTable.ofContents built.source.file built.source.contents with
  | .error message => .error (.tooLarge message)
  | .ok _ => .ok built

/-- All names are declared first, so that declarations may refer to each other in any order. -/
def build (b : Blueprint) : Except (Fault BuildError) Build := do
  let (symbols, binder) ← StateT.run (s := {}) <|
    b.globals.mapM fun (name, kind) => declareGlobal name kind
  let (declared, page) ←
    (declarations b (symbols.drop (b.params.length + b.vars.length))).run (opening b binder)
  let ancestors ← b.ancestry.mapError .declared
  let resourceScopes ← b.resourceScopes.mapError .declared
  let moduleScopes ← b.moduleScopes.mapError .declared
  let program := declared.program page.binder.next
  sized {
    model := { program, symbols := page.binder.symbols, ancestors, resourceScopes, moduleScopes }
    source := { file := Blueprint.file, contents := page.text }
    extents := declared.extents }

end OnePass

end Preflight
