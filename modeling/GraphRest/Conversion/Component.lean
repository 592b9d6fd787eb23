import GraphRest.Conversion.Notice
import GraphRest.Conversion.TypeRole
import GraphRest.Naming.Inflection

/-!
# Components

The component of each declared type. A component embeds no other one: a field of a structured type
becomes the identifier of what it refers to, or is left to an endpoint of its own if it is a list.
-/

namespace GraphRest

open Sdl

/-- A field of an object, interface or input type, as far as its property depends on it. -/
structure Member where
  name : String
  description : Option String
  type : TypeRef
  directives : List DirectiveUse

def Member.ofField (f : Field) : Member :=
  { name := f.name, description := f.description, type := f.type, directives := f.directives }

/-- The member that a field of an input type is. -/
def Member.ofInput (v : InputValue) : Member :=
  { name := v.name, description := v.description, type := v.type, directives := v.directives }

def nonEmpty (text : Option String) : Option String := text.filter fun t => !t.isEmpty

/-- What the declaration of a scalar says on where it is specified. -/
def specifications (g : TypeGraph) (name : String) : List Notice :=
  match g.type? name with
  | some ⟨_, _, directives, .scalar⟩ =>
      (Notice.ofDirectives directives).filter fun
        | .specifiedBy _ => true
        | _ => false
  | _ => []

/-- The fragment of a member that is embedded: that of its type, with its description and all
notices. -/
def embeddedFragment (g : TypeGraph) (m : Member) : Fragment :=
  let f := g.fragment m.type
  let f := match nonEmpty m.description with
    | some text => f.described (Naming.titledDescription m.name text)
    | none => f
  Notice.noteAll m.name
    (Notice.ofDirectives m.directives ++ specifications g m.type.innermost) f

/-- The key of the identifier that stands for a member of a structured type. -/
def identifierKey (name : String) : String := name ++ "Id"

/-- The plural of a type name as it stands in paths. -/
def collectionName (rules : InflectionRules) (typeName : String) : String :=
  rules.pluralize (Text.lowerAscii typeName)

/-- The identifier that stands for a member of a structured type. -/
def identifierFragment (rules : InflectionRules) (m : Member) : Fragment :=
  Fragment.string.described ("Reference to " ++ m.type.innermost ++ ".id - use GET /" ++
    collectionName rules m.type.innermost ++ "/\x7b" ++ identifierKey m.name ++ "\x7d")

/-- The property of a member with its key. A list of a structured type has none. -/
def property? (g : TypeGraph) (rules : InflectionRules) (m : Member) : Option (String × Fragment) :=
  if !(g.role m.type.innermost).isStructured then some (m.name, embeddedFragment g m)
  else if m.type.isList then none
  else some (identifierKey m.name, identifierFragment rules m)

/-- The key of a member that is never null. -/
def requiredKey? (g : TypeGraph) (rules : InflectionRules) (m : Member) : Option String :=
  if m.type.isNonNull then (property? g rules m).map Prod.fst else none

def properties (g : TypeGraph) (rules : InflectionRules) (members : List Member) :
    OrderedMap Fragment :=
  .ofList (members.filterMap (property? g rules))

/-- The component of members with the list of those that are never null. -/
def objectComponent (g : TypeGraph) (rules : InflectionRules) (description : Option String)
    (members : List Member) : Fragment :=
  { Fragment.object with
    description := nonEmpty description
    properties := properties g rules members
    required := members.filterMap (requiredKey? g rules) }

/-- The component of a declared type. Scalars have none; they are written out where they are used. An
interface requires none of its properties. -/
def component? (g : TypeGraph) (rules : InflectionRules) (d : TypeDefinition) : Option Fragment :=
  match d.body with
  | .scalar => none
  | .enum values =>
      some { Fragment.string with description := nonEmpty d.description, enumValues := values }
  | .union members =>
      some { oneOf := members.map Fragment.referTo, description := nonEmpty d.description }
  | .interface _ fields =>
      some { objectComponent g rules d.description (fields.map Member.ofField) with required := [] }
  | .object _ fields => some (objectComponent g rules d.description (fields.map Member.ofField))
  | .input fields => some (objectComponent g rules d.description (fields.map Member.ofInput))

/-- The components of a schema, in the order in which its types are declared. -/
def components (g : TypeGraph) (rules : InflectionRules) : List (String × Fragment) :=
  (g.types.filter (isExposed g)).filterMap fun d => (component? g rules d).map (d.name, ·)

end GraphRest
