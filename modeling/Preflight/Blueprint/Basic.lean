import Preflight.Parser.Cursor
import Preflight.ResourceType
import Preflight.Symbol

/-! # Blueprints

A program in short: its declarations by name, with the texts of their expressions. From a
blueprint the source text is written and the bound program is built. -/

namespace Preflight
set_option autoImplicit false

structure LoopSpec where
  item : String
  index : Option String := none
  collection : String
deriving DecidableEq, Repr

structure ResourceSpec where
  name : String
  typeText : String
  existing : Bool := false
  /-- The resource that this one is a child of: through its `parent` property if it sets one, else
  by being declared inside. -/
  parent : Option String := none
  /-- The declaration that this one is deployed onto. -/
  scope : Option String := none
  loop : Option LoopSpec := none
  condition : Option String := none
  properties : Std.TreeMap String String := {}
  /-- The properties that the type of the body declares, where they are not the usual ones. -/
  bodyProperties : Option (List String) := none
  /-- Whether the type of the body is still one of several variants. -/
  discriminated : Bool := false

structure ModuleSpec where
  name : String
  path : String := "./module.bicep"
  /-- The target scope as a word; `none` where it is not known. -/
  scopeKind : String := "resourceGroup"
  loop : Option LoopSpec := none
  condition : Option String := none
  properties : Std.TreeMap String String := {}
  bodyProperties : Option (List String) := none

structure Blueprint where
  params : List String := []
  vars : List String := []
  resources : List ResourceSpec := []
  modules : List ModuleSpec := []

inductive DeclarationError where
  | type (cause : ResourceType.ParseError)
  | expression (property : Option String) (text : String) (cause : SyntaxError)
deriving DecidableEq, Repr

def DeclarationError.message : DeclarationError → String
  | type cause => cause.message
  | expression none text cause => s!"cannot read `{text}`: {cause.message}"
  | expression (some property) text cause =>
    s!"property `{property}`: cannot read `{text}`: {cause.message}"

/-- Why a blueprint does not describe a program. -/
inductive BuildError where
  | repeatedName (name : String)
  | resource (name : String) (cause : DeclarationError)
  | module (name : String) (cause : DeclarationError)
  | unknownParent (name parent : String)
  | cyclicParents (name : String)
  | unknownScope (name scope : String)
  | unknownScopeKind (word : String)
  | binding (cause : BindError)
deriving DecidableEq, Repr

def BuildError.message : BuildError → String
  | repeatedName name => s!"`{name}` is declared more than once"
  | resource name cause => s!"resource `{name}`: {cause.message}"
  | module name cause => s!"module `{name}`: {cause.message}"
  | unknownParent name parent => s!"`{name}` has unknown parent `{parent}`"
  | cyclicParents name => s!"cyclic parent chain through `{name}`"
  | unknownScope name scope => s!"`{name}` has unknown scope `{scope}`"
  | unknownScopeKind word => s!"unknown scope kind `{word}`"
  | binding cause => cause.message

end Preflight
