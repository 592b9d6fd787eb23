import GraphRest.Conversion.Notice
import GraphRest.Conversion.Component
import GraphRest.Document.Basic
import GraphRest.Naming.Title

/-!
# Endpoints

An endpoint is an operation with the route and method it stands at, and the field that it stands for.
This module holds what the endpoints of all kinds of fields are built from.
-/

namespace GraphRest

open Sdl

/-- The field that an endpoint stands for. -/
inductive Origin where
  | query (field : String)
  | mutation (field : String)
  | subscription (field : String)
  | member (owner field : String)
  deriving DecidableEq

/-- An operation at a route, for a field. The route is the path without the configured prefix. -/
structure Endpoint where
  origin : Origin
  route : String
  method : Method
  operation : Operation

namespace Endpoint

/-- Writes endpoints into a document, one after another, behind a path prefix. -/
def writeAll (options : Options) (endpoints : List Endpoint) (d : Document) : Document :=
  endpoints.foldl (fun d e => d.insertOperation (options.path e.route) e.method e.operation) d

/-! ## Routes -/

def nameRoute (name : String) : String := "/" ++ name

/-- A part of a route that stands for a parameter. -/
def placeholder (name : String) : String := "\x7b" ++ name ++ "\x7d"

/-- The route of a single resource in a collection. -/
def itemRoute (collection : String) : String := nameRoute collection ++ "/" ++ placeholder "id"

/-! ## Contents -/

/-- The media type of requests and responses. -/
def jsonMediaType : String := "application/json"

def eventStreamMediaType : String := "text/event-stream"

/-- The responses of an operation that answers with JSON. -/
def jsonResponses (schema : Fragment) : OrderedMap Response :=
  [("200", .ofContent "Successful response" jsonMediaType schema)]

/-- The parameter that an argument becomes. Lists in the query are spread over several values. -/
def parameter (g : TypeGraph) (location : ParameterLocation) (a : InputValue) : Parameter :=
  let exploded := location = .query && a.type.isList
  { name := a.name
    location
    description := nonEmpty a.description
    required := location = .path || a.type.isNonNull
    schema := some (g.fragment a.type)
    style := if exploded then some "form" else none
    explode := exploded }

/-- The property that an argument becomes in a request body. -/
def bodyProperty (g : TypeGraph) (a : InputValue) : String × Fragment :=
  (a.name, match nonEmpty a.description with
    | some text => (g.fragment a.type).described text
    | none => g.fragment a.type)

/-- The object of all arguments that a request sends. -/
def bodySchema (g : TypeGraph) (arguments : List InputValue) : Fragment :=
  { Fragment.object with
    properties := OrderedMap.ofList (arguments.map (bodyProperty g))
    required := (arguments.filter (·.type.isNonNull)).map InputValue.name }

/-- The request body of a field, if it has arguments. -/
def requestBody? (g : TypeGraph) (arguments : List InputValue) : Option RequestBody :=
  if arguments.isEmpty then none
  else some
    { required := true, content := [(jsonMediaType, { schema := some (bodySchema g arguments) })] }

/-- Notes the directives of a field on its operation. -/
def annotate (f : Field) (o : Operation) : Operation :=
  Notice.noteAllOperation (Notice.ofDirectives f.directives) o

/-- The description of a field with its title in front, and the first sentence of that. -/
def summarised (f : Field) : Naming.Summarised :=
  Naming.summarise (Naming.titledDescription f.name (f.description.getD ""))

def unlessEmpty (text : String) : Option String := nonEmpty (some text)

end Endpoint

end GraphRest
