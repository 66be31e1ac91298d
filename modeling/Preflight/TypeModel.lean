import Preflight.ResourceType

/-! # Declared types

What the type checker knows of a declaration: whether it is a resource or a module, and which
properties its body may set. -/

namespace Preflight
set_option autoImplicit false

structure TypeProperty (τ : Type) where
  name : String
  type : τ
  required : Bool
deriving Repr

/-- An object type over types `τ` of its properties, which have names of their own. -/
structure ObjectOf (τ : Type) where
  name : String
  properties : List (TypeProperty τ) := []
deriving Repr

namespace ObjectOf

variable {τ : Type}

def withProperty (object : ObjectOf τ) (name : String) (type : τ) (required : Bool) :
    ObjectOf τ :=
  let others := object.properties.filter (·.name != name)
  { object with properties := others ++ [{ name, type, required }] }

def hasProperty (object : ObjectOf τ) (name : String) : Bool :=
  object.properties.any (·.name == name)

@[simp] theorem hasProperty_withProperty (object : ObjectOf τ) (name : String) (type : τ)
    (required : Bool) (other : String) :
    (object.withProperty name type required).hasProperty other =
      (name == other || object.hasProperty other) := by
  by_cases h : name = other
  · simp [withProperty, hasProperty, h]
  · simp only [withProperty, hasProperty, List.any_append, List.any_filter, List.any_cons,
      List.any_nil, Bool.or_false, beq_eq_false_iff_ne.mpr h, Bool.false_or]
    congr 1
    funext p
    by_cases hp : p.name = other
    · simp [hp, Ne.symm h]
    · simp [hp]

end ObjectOf

inductive TypeRef where
  | any
  /-- The type checker reported a problem already. -/
  | error
  | string | int | bool | null
  | object (type : ObjectOf TypeRef)
  /-- One of several object types, chosen by the value of a property. -/
  | discriminated (name discriminator : String) (variants : List (String × ObjectOf TypeRef))
  | array (item : TypeRef)
  | resource (type : ResourceType) (body : TypeRef)
  | module (name : String) (body : TypeRef)

abbrev ObjectType := ObjectOf TypeRef

namespace TypeRef

def resourceType? : TypeRef → Option ResourceType
  | resource type _ => some type
  | array (resource type _) => some type
  | _ => none

/-- The object type of the body of a resource or module, or of any loop of them. A body that is
still one of several variants has none. -/
def bodyObject? : TypeRef → Option ObjectType
  | resource _ (object type) => some type
  | module _ (object type) => some type
  | array item => item.bodyObject?
  | _ => none

end TypeRef

end Preflight
