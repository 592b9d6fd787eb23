/-!
# Definitions of the schema language

What a schema source defines, as far as a conversion can depend on it, and the types that every schema has
without declaring them: five scalars and the types that describe a schema to its clients.
-/

namespace GraphRest.Sdl

/-- A reference to a type: a name or a list, and whether it excludes null. -/
inductive TypeRef where
  | named (name : String) (nonNull : Bool)
  | list (element : TypeRef) (nonNull : Bool)
  deriving DecidableEq

namespace TypeRef

def innermost : TypeRef → String
  | named name _ => name
  | list element _ => element.innermost

def isNonNull : TypeRef → Bool
  | named _ nonNull => nonNull
  | list _ nonNull => nonNull

def isList : TypeRef → Bool
  | named .. => false
  | list .. => true

/-- The name of the elements of a list of one level. -/
def listedName? : TypeRef → Option String
  | list (named name _) _ => some name
  | _ => none

end TypeRef

/-- The value of an argument of a directive. Numbers keep their spelling. -/
inductive Value where
  | null
  | bool (b : Bool)
  | int (text : String)
  | float (text : String)
  | string (text : String)
  | enumName (name : String)
  | list (items : List Value)
  | object (entries : List (String × Value))

/-- The text of a string, a number or an enum name; other values have none. -/
def Value.text? : Value → Option String
  | int text => some text
  | float text => some text
  | string text => some text
  | enumName name => some name
  | _ => none

/-- A named value given to a directive. -/
structure Argument where
  name : String
  value : Value

/-- The use of a directive. -/
structure DirectiveUse where
  name : String
  arguments : List Argument

/-- An argument of a field, or a field of an input type. -/
structure InputValue where
  name : String
  description : Option String
  type : TypeRef
  directives : List DirectiveUse

/-- A field of an object or interface type. -/
structure Field where
  name : String
  description : Option String
  arguments : List InputValue
  type : TypeRef
  directives : List DirectiveUse

/-- The kinds of a declared type. -/
inductive Kind where
  | scalar
  | object
  | interface
  | union
  | enum
  | input
  deriving DecidableEq

/-- What a type of some kind consists of. -/
inductive Body where
  | scalar
  | object (interfaces : List String) (fields : List Field)
  | interface (interfaces : List String) (fields : List Field)
  | union (members : List String)
  | enum (values : List String)
  | input (fields : List InputValue)

def Body.kind : Body → Kind
  | scalar => .scalar
  | object .. => .object
  | interface .. => .interface
  | union .. => .union
  | enum .. => .enum
  | input .. => .input

/-- A declared type. -/
structure TypeDefinition where
  name : String
  description : Option String
  directives : List DirectiveUse
  body : Body

/-- The three kinds of operation. -/
inductive OperationKind where
  | query
  | mutation
  | subscription
  deriving DecidableEq

/-- A root operation and the type that a schema definition names for it. The name may be missing. -/
structure RootEntry where
  kind : OperationKind
  type : Option String

/-- A definition or an extension at the top level of a source. -/
inductive Definition where
  | schema (roots : List RootEntry)
  | extendSchema (roots : List RootEntry)
  | type (definition : TypeDefinition)
  | extendType (extension : TypeDefinition)
  | directive (name : String)

/-! ## Built-in types -/

namespace BuiltIn

def scalarNames : List String := ["Int", "Float", "String", "Boolean", "ID"]

def scalar (name : String) : TypeDefinition :=
  { name, description := none, directives := [], body := .scalar }

def object (name : String) (fields : List Field) : TypeDefinition :=
  { name, description := none, directives := [], body := .object [] fields }

def enum (name : String) (values : List String) : TypeDefinition :=
  { name, description := none, directives := [], body := .enum values }

def describedField (name : String) (description : Option String) (type : TypeRef) : Field :=
  { name, description, arguments := [], type, directives := [] }

def field (name : String) (type : TypeRef) : Field := describedField name none type

/-- A field that can be asked for deprecated entries too. -/
def filteredField (name : String) (type : TypeRef) : Field :=
  { field name type with
    arguments := [{ name := "includeDeprecated", description := none,
                    type := .named "Boolean" false, directives := [] }] }

/-- A list without nulls of a named type. -/
def listOf (name : String) (nonNull : Bool) : TypeRef := .list (.named name true) nonNull

def deprecationFields : List Field := [
  field "isDeprecated" (.named "Boolean" true),
  field "deprecationReason" (.named "String" false)]

/-- The fields that name and describe an entry. -/
def namingFields : List Field := [
  field "name" (.named "String" true),
  field "description" (.named "String" false)]

/-- The types that describe a schema to its clients. -/
def introspection : List TypeDefinition := [
  object "__Schema" [
    field "description" (.named "String" false),
    describedField "types" (some "A list of all types supported by this server.")
      (listOf "__Type" true),
    describedField "queryType" (some "The type that query operations will be rooted at.")
      (.named "__Type" true),
    describedField "mutationType"
      (some "If this server supports mutation, the type that mutation operations will be rooted at.")
      (.named "__Type" false),
    describedField "subscriptionType"
      (some ("If this server support subscription, the type that subscription operations " ++
        "will be rooted at."))
      (.named "__Type" false),
    describedField "directives" (some "A list of all directives supported by this server.")
      (listOf "__Directive" true)],
  object "__Type" [
    field "kind" (.named "__TypeKind" true),
    field "name" (.named "String" false),
    field "description" (.named "String" false),
    filteredField "fields" (listOf "__Field" false),
    field "interfaces" (listOf "__Type" false),
    field "possibleTypes" (listOf "__Type" false),
    filteredField "enumValues" (listOf "__EnumValue" false),
    filteredField "inputFields" (listOf "__InputValue" false),
    field "ofType" (.named "__Type" false),
    field "specifiedByURL" (.named "String" false)],
  enum "__TypeKind" [
    "SCALAR", "OBJECT", "INTERFACE", "UNION", "ENUM", "INPUT_OBJECT", "LIST", "NON_NULL"],
  object "__Field" (namingFields ++ [
    filteredField "args" (listOf "__InputValue" true),
    field "type" (.named "__Type" true)] ++ deprecationFields),
  object "__InputValue" (namingFields ++ [
    field "type" (.named "__Type" true),
    describedField "defaultValue"
      (some "A GraphQL-formatted string representing the default value for this input value.")
      (.named "String" false)] ++ deprecationFields),
  object "__EnumValue" (namingFields ++ deprecationFields),
  object "__Directive" (namingFields ++ [
    field "locations" (listOf "__DirectiveLocation" true),
    filteredField "args" (listOf "__InputValue" true),
    field "isRepeatable" (.named "Boolean" true)]),
  enum "__DirectiveLocation" [
    "QUERY", "MUTATION", "SUBSCRIPTION", "FIELD", "FRAGMENT_DEFINITION", "FRAGMENT_SPREAD",
    "INLINE_FRAGMENT", "VARIABLE_DEFINITION", "SCHEMA", "SCALAR", "OBJECT", "FIELD_DEFINITION",
    "ARGUMENT_DEFINITION", "INTERFACE", "UNION", "ENUM", "ENUM_VALUE", "INPUT_OBJECT",
    "INPUT_FIELD_DEFINITION"]]

/-- The types of a schema that declares nothing. -/
def types : List TypeDefinition := introspection ++ scalarNames.map scalar

end BuiltIn

end GraphRest.Sdl
