import Preflight.Text.WhiteSpace

/-! # Resource types as written

`Namespace/type/child@version`: a namespace and at least one type name, and perhaps a version. -/

namespace Preflight
set_option autoImplicit false

/-- A resource type. The namespace is part of the first type name. -/
structure ResourceType where
  types : List String
  apiVersion : Option String := none
deriving DecidableEq, Repr

namespace ResourceType

inductive Fault where
  | emptyVersion | emptySegment | tooFewSegments
deriving DecidableEq, Repr

def Fault.reason : Fault → String
  | emptyVersion => "empty api version"
  | emptySegment => "empty type segment"
  | tooFewSegments => "expected a namespace and a type name"

structure ParseError where
  text : String
  fault : Fault
deriving DecidableEq, Repr

def ParseError.message (e : ParseError) : String :=
  s!"invalid resource type '{e.text}': {e.fault.reason}"

/-- What stands before the first `@`, and what follows it if there is one. -/
def splitVersion (text : List Char) : List Char × Option (List Char) :=
  match text.span (· != '@') with
  | (types, []) => (types, none)
  | (types, _ :: version) => (types, some version)

def ofChars (text : List Char) : Except Fault ResourceType := do
  let (typePart, version) := splitVersion text
  if version = some [] then
    throw .emptyVersion
  let segments := typePart.splitOn '/'
  if segments.any isBlankText then
    throw .emptySegment
  match segments with
  | namespacePart :: first :: children =>
    return {
      types := .ofList (namespacePart ++ '/' :: first) :: children.map .ofList
      apiVersion := version.map .ofList }
  | _ => throw .tooFewSegments

def parse (text : String) : Except ParseError ResourceType :=
  (ofChars text.toList).mapError ({ text, fault := · })

def fullyQualified (t : ResourceType) : String := "/".intercalate t.types

instance : ToString ResourceType where
  toString t := match t.apiVersion with
    | none => t.fullyQualified
    | some version => s!"{t.fullyQualified}@{version}"

end ResourceType

end Preflight
