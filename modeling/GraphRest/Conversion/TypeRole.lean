import GraphRest.Document.Fragment
import GraphRest.Sdl.TypeGraph
import GraphRest.Text.Basic

/-!
# Roles of types

What part a named type plays in a document, and the fragment of a type reference. Every reference has
one: a name that nothing is known about stands for any text.
-/

namespace GraphRest

open Sdl

/-- The part that a named type plays in a document. -/
inductive TypeRole where
  /-- One of the five scalars of the language. -/
  | builtInScalar
  /-- A declared scalar, or a name that is not declared. -/
  | customScalar
  | enum
  /-- The type of a root operation. -/
  | root
  | object
  | interface
  | union
  | input
  deriving DecidableEq

namespace TypeRole

/-- Whether values of the type have a structure of their own, which a property does not embed. -/
def isStructured : TypeRole → Bool
  | object => true
  | interface => true
  | union => true
  | input => true
  | _ => false

def isScalar : TypeRole → Bool
  | builtInScalar => true
  | customScalar => true
  | _ => false

/-- The role of a type of some kind. -/
def ofKind : Kind → TypeRole
  | .scalar => customScalar
  | .object => object
  | .interface => interface
  | .union => union
  | .enum => enum
  | .input => input

end TypeRole

/-- The fragment of a scalar of the language. -/
def scalarFragment? (name : String) : Option Fragment :=
  match name with
  | "Int" => some (.formatted .integer "int32")
  | "Float" => some (.formatted .number "double")
  | "String" => some .string
  | "Boolean" => some (.ofType .boolean)
  | "ID" => some .string
  | _ => none

namespace Sdl.TypeGraph

/-- The role of a named type. The scalars of the language come first, then the roots. -/
def role (g : TypeGraph) (name : String) : TypeRole :=
  if (scalarFragment? name).isSome then .builtInScalar
  else if g.roots.contains name then .root
  else match g.type? name with
    | some d => .ofKind d.body.kind
    | none => .customScalar

def namedFragment (g : TypeGraph) (name : String) : Fragment :=
  match scalarFragment? name with
  | some f => f
  | none =>
      match g.role name with
      | .root => .object
      | .builtInScalar => .string
      | .customScalar => .string
      | _ => .referTo name

def fragment (g : TypeGraph) : TypeRef → Fragment
  | .named name _ => g.namedFragment name
  | .list element _ => .array (g.fragment element)

end Sdl.TypeGraph

/-- Whether a name is set apart for the description of schemas. -/
def isReservedName (name : String) : Bool := Text.beginsWith name "__"

/-- Whether a declared type appears in the document under its own name: roots and reserved names do
not. -/
def isExposed (g : TypeGraph) (d : TypeDefinition) : Bool :=
  !isReservedName d.name && !g.roots.contains d.name

end GraphRest
