import Preflight.Binding
import Preflight.Blueprint.Draft
import Preflight.Source

/-! # Building programs

A blueprint becomes a source text, a program whose spans point into it, and a model in which every
name is bound and every parent and scope is resolved. -/

namespace Preflight
set_option autoImplicit false

structure Extent where
  name : String
  firstLine : Nat
  lastLine : Nat
deriving DecidableEq, Repr

structure Build where
  model : Model
  source : Source
  extents : List Extent

def Build.declarationAt? (build : Build) (line : Nat) : Option String :=
  (build.extents.find? fun e => e.firstLine ≤ line ∧ line ≤ e.lastLine).map (·.name)

/-- The first name that stands in the list before. -/
def firstRepeated? (before : List String) : List String → Option String
  | [] => none
  | name :: names => if name ∈ before then some name else firstRepeated? (name :: before) names

/-- Whether a module's scope is known under this word, and which it is. -/
def ScopeKind.ofWord? : String → Option (Option ScopeKind)
  | "none" => some none
  | "tenant" => some (some .tenant)
  | "managementGroup" => some (some .managementGroup)
  | "subscription" => some (some .subscription)
  | "resourceGroup" => some (some .resourceGroup)
  | _ => none

namespace Blueprint

def file : String := "main.bicep"

/-- The declared names, each with its kind. Their order gives them their symbols. -/
def globals (b : Blueprint) : List (String × SymbolKind) :=
  b.params.map (·, .parameter) ++ b.vars.map (·, .variable) ++
    b.resources.map (·.name, .resource) ++ b.modules.map (·.name, .module)

def names (b : Blueprint) : Names :=
  b.globals.zipIdx.map fun ((name, _), number) => (name, ⟨number⟩)

def symbols (b : Blueprint) : SymbolTable :=
  b.globals.foldl (fun table (name, kind) => table.declare name kind) {}

def numberedResources (b : Blueprint) : List (ResourceSpec × SymbolId) :=
  (b.resources.zipIdx (b.params.length + b.vars.length)).map fun (spec, number) =>
    (spec, ⟨number⟩)

def numberedModules (b : Blueprint) : List (ModuleSpec × SymbolId) :=
  (b.modules.zipIdx (b.params.length + b.vars.length + b.resources.length)).map
    fun (spec, number) => (spec, ⟨number⟩)

/-- Declarations without a body come first, each on a line of its own. -/
def header (b : Blueprint) : Draft :=
  let lines := b.params.map (fun name => s!"param {name} string") ++
    b.vars.map fun name => s!"var {name} = \x7b\x7d"
  lines.foldl (fun draft text => draft.line text) {}

/-- Writes one declaration and notes the lines that it takes. -/
def declaration {α : Type} (name : String) (write : Writer α)
    (context : DeclarationError → BuildError) :
    StateT Draft (Except BuildError) (α × Extent) := fun before =>
  match write.run before with
  | .error cause => .error (context cause)
  | .ok (value, after) =>
    .ok ((value, ⟨name, before.position.lines + 1, after.position.lines⟩), after)

/-- Writes the program. Gives its tree, its text, and the lines of each declaration. -/
def written (b : Blueprint) : Except BuildError (Program × String × List Extent) := do
  let (resources, draft) ← StateT.run (s := b.header) <|
    b.numberedResources.mapM fun (spec, symbol) =>
      declaration spec.name (Writer.resource spec symbol) (.resource spec.name)
  let (modules, draft) ← StateT.run (s := draft) <|
    b.numberedModules.mapM fun (spec, symbol) =>
      declaration spec.name (Writer.module spec symbol) (.module spec.name)
  let program := {
    file
    resources := resources.map (·.1)
    modules := modules.map (·.1)
    indices := draft.next }
  return (program, draft.text, resources.map (·.2) ++ modules.map (·.2))

/-- The chain of parents of `spec`, which belongs to the resource `root`. A chain of more than
`bound` parents is taken to be a cycle. -/
def parentChain (b : Blueprint) (root : String) :
    Nat → ResourceSpec → Except BuildError (List Ancestor)
  | bound, spec =>
    match spec.parent with
    | none => .ok []
    | some parent =>
      match b.numberedResources.find? (·.1.name == parent) with
      | none => .error (.unknownParent spec.name parent)
      | some (next, symbol) =>
        match bound with
        | 0 => .error (.cyclicParents root)
        | bound + 1 => do
          let kind :=
            if spec.properties.contains "parent" then AncestorKind.parentProperty else .nested
          let chain ← parentChain b root bound next
          return { resource := symbol, kind } :: chain

/-- The ancestors of every resource. No chain that ends has as many parents as there are
resources. -/
def ancestry (b : Blueprint) : Except BuildError Ancestry :=
  b.numberedResources.foldlM (fun ancestry (spec, symbol) => do
    let chain ← b.parentChain spec.name b.resources.length spec
    return if chain.isEmpty then ancestry else ancestry.insert symbol chain) {}

def resourceScopes (b : Blueprint) : Except BuildError Scopes :=
  b.numberedResources.foldlM (fun scopes (spec, symbol) => do
    match spec.scope with
    | none => return scopes.insert symbol { kind := .resourceGroup }
    | some scope =>
      match b.names.lookup scope with
      | none => throw (.unknownScope spec.name scope)
      | some target => return scopes.insert symbol (.onResource target)) {}

def moduleScopes (b : Blueprint) : Except BuildError Scopes :=
  b.numberedModules.foldlM (fun scopes (spec, symbol) =>
    match ScopeKind.ofWord? spec.scopeKind with
    | none => throw (.unknownScopeKind spec.scopeKind)
    | some none => return scopes
    | some (some kind) => return scopes.insert symbol { kind }) {}

/-- Builds a program whose text may be of any length. Where its lines have to be told by offsets of
32 bits, `OnePass.build` refuses it if it is too long for them. -/
def build (b : Blueprint) : Except BuildError Build := do
  if let some name := firstRepeated? [] (b.globals.map (·.1)) then
    throw (.repeatedName name)
  let (program, contents, extents) ← b.written
  let ancestors ← b.ancestry
  let resourceScopes ← b.resourceScopes
  let moduleScopes ← b.moduleScopes
  let bodies := program.resources.map (·.body) ++ program.modules.map (·.body)
  let symbols ← (b.symbols.bindAll b.names bodies).mapError .binding
  return {
    model := { program, symbols, ancestors, resourceScopes, moduleScopes }
    source := { file, contents }
    extents }

end Blueprint

end Preflight
