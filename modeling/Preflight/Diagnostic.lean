import Preflight.Source

/-! # Diagnostics

What the checks have to say about a program. -/

namespace Preflight
set_option autoImplicit false

inductive Level where
  | info | warning | error
deriving DecidableEq, Repr

instance : ToString Level where
  toString
    | .info => "info"
    | .warning => "warning"
    | .error => "error"

structure Diagnostic where
  span : Span
  level : Level
  code : String
  message : String
deriving DecidableEq, Repr

def quotedList (names : List String) : String :=
  ", ".intercalate (names.map fun name => s!"\"{name}\"")

namespace Diagnostic

def isError (d : Diagnostic) : Bool := d.level == .error

def kind (d : Diagnostic) : String := s!"{d.level}[{d.code}]"

instance : ToString Diagnostic where
  toString d := s!"{d.span.line}:{d.span.column}: {d.kind}: {d.message}"

def render (d : Diagnostic) (source : Source) : String := d.span.message source d.kind d.message

/-- Several resources are deployed under one name. -/
def duplicateResources (span : Span) (names : List String) : Diagnostic where
  span
  level := .error
  code := "BCP121"
  message := s!"Resources: {quotedList names} are defined with this same name in a file. " ++
    "Rename them or split into different modules."

/-- Several modules are deployed under one name in one scope. -/
def duplicateModules (span : Span) (names : List String) : Diagnostic where
  span
  level := .error
  code := "BCP122"
  message := s!"Modules: {quotedList names} are defined with this same name and this same scope " ++
    "in a file. Rename them or split into different modules."

/-- A name has not one qualifier for each type segment after the first. -/
def qualifierCount (span : Span) (expected : Nat) : Diagnostic where
  span
  level := .error
  code := "BCP169"
  message := s!"Expected resource name to contain {expected} \"/\" character(s). " ++
    "The number of name segments must match the number of segments in the resource type."

/-- The name of a child resource is qualified. -/
def qualifiedChild (span : Span) : Diagnostic where
  span
  level := .error
  code := "BCP170"
  message := "Expected resource name to not contain any \"/\" characters. " ++
    "Child resources with a parent resource reference (via the parent property or via nesting) " ++
    "must not contain a fully-qualified name."

/-- A loop deploys the same thing in each iteration. -/
def loopInvariant (span : Span) (item : String) (index : Option String)
    (properties : List String) : Diagnostic where
  span
  level := .warning
  code := "BCP179"
  message :=
    let subjects := match index with
      | some index =>
        s!"The loop item variable \"{item}\" or the index variable \"{index}\" must"
      | none => s!"The loop item variable \"{item}\" must"
    "Unique resource or deployment name is required when looping. " ++
      s!"{subjects} be referenced in at least one of the value expressions of the following " ++
      s!"properties: {quotedList properties}"

end Diagnostic

end Preflight
