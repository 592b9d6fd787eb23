import GraphRest.Tree

/-!
# Schema fragments

One node of the schemas in an OpenAPI document. Named types are only ever referred to, never embedded,
so a fragment is finite whatever cycles the types have.
-/

namespace GraphRest

/-- The primitive type of a fragment. -/
inductive PrimitiveType where
  | string
  | integer
  | number
  | boolean
  | array
  | object
  deriving DecidableEq

def PrimitiveType.word : PrimitiveType → String
  | string => "string"
  | integer => "integer"
  | number => "number"
  | boolean => "boolean"
  | array => "array"
  | object => "object"

/-- A schema fragment: its type, the schemas inside it, and what else it says on its values. -/
structure Fragment where
  type : Option PrimitiveType := none
  format : Option String := none
  description : Option String := none
  properties : List (String × Fragment) := []
  required : List String := []
  items : Option Fragment := none
  reference : Option String := none
  deprecated : Bool := false
  enumValues : List String := []
  oneOf : List Fragment := []
  minLength : Option Nat := none
  maxLength : Option Nat := none
  minimum : Option Double := none
  maximum : Option Double := none
  pattern : Option String := none

namespace Fragment

/-- What stands in front of the name of a component in a reference to it. -/
def componentPrefix : String := "#/components/schemas/"

/-- A fragment of which only the type is known. -/
def ofType (type : PrimitiveType) : Fragment := { type := some type }

/-- A fragment of a type in a format. -/
def formatted (type : PrimitiveType) (format : String) : Fragment :=
  { type := some type, format := some format }

def string : Fragment := ofType .string

def object : Fragment := ofType .object

def array (items : Fragment) : Fragment := { type := some .array, items := some items }

def referTo (name : String) : Fragment := { reference := some (componentPrefix ++ name) }

/-- The fragment with a description in place of its own. -/
def described (f : Fragment) (description : String) : Fragment :=
  { f with description := some description }

/-! ## Data trees -/

mutual

/-- A fragment as a data tree. What is empty, unset or absent is left out. -/
def tree : Fragment → Tree
  | ⟨type, format, description, properties, required, items, reference, deprecated, enumValues, oneOf,
      minLength, maxLength, minimum, maximum, pattern⟩ =>
    .fields (
      Tree.optional "type" (fun t => .text t.word) type ++
      Tree.optional "format" .text format ++
      Tree.optional "description" .text description ++
      Tree.nonEmptyFields "properties" (propertyTrees properties) ++
      Tree.nonEmptyList "required" (required.map .text) ++
      itemsField items ++
      Tree.optional "$ref" .text reference ++
      Tree.flag "deprecated" deprecated ++
      Tree.nonEmptyList "enum" (enumValues.map .text) ++
      Tree.nonEmptyList "oneOf" (trees oneOf) ++
      Tree.optional "minLength" .whole minLength ++
      Tree.optional "maxLength" .whole maxLength ++
      Tree.optional "minimum" (fun d => .number (.double d)) minimum ++
      Tree.optional "maximum" (fun d => .number (.double d)) maximum ++
      Tree.optional "pattern" .text pattern)

/-- The properties of a fragment as fields. -/
def propertyTrees : List (String × Fragment) → List (String × Tree)
  | [] => []
  | (name, f) :: fs => (name, tree f) :: propertyTrees fs

/-- The element of a list as a field, if there is one. -/
def itemsField : Option Fragment → List (String × Tree)
  | none => []
  | some f => [("items", tree f)]

def trees : List Fragment → List Tree
  | [] => []
  | f :: fs => tree f :: trees fs

end

end Fragment

end GraphRest
