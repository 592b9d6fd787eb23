import GraphRest.Endpoint.Basic
import GraphRest.Resource.Detection

/-!
# Endpoints of queries and members

A resource offers its list and, where a query gets a single one, its items. Every other query stands at
a route of its own name. A list of a type other than a scalar, declared on an object type, is a collection
below the object it belongs to.
-/

namespace GraphRest.Endpoint

open Sdl

/-! ## Queries -/

def resourceList (p : ResourcePattern) : Endpoint :=
  { origin := .query p.plural
    route := nameRoute p.plural
    method := .get
    operation :=
      { operationId := some ("list" ++ Text.capitalize p.plural)
        summary := some ("List " ++ p.plural)
        responses := jsonResponses (.array (.referTo p.target)) } }

def resourceItem (p : ResourcePattern) : Endpoint :=
  { origin := .query p.resource
    route := itemRoute p.plural
    method := .get
    operation :=
      { operationId := some ("get" ++ Text.capitalize p.resource)
        summary := some ("Get " ++ p.resource ++ " by ID")
        parameters := [.idInPath]
        responses := jsonResponses (.referTo p.target) } }

def readResource (p : ResourcePattern) : List Endpoint :=
  (if p.has .list then [resourceList p] else []) ++ (if p.has .get then [resourceItem p] else [])

/-- The names of the queries that stand behind a resource. -/
def consumedQueries (p : ResourcePattern) : List String :=
  (if p.has .list then [p.plural] else []) ++ (if p.has .get then [p.resource] else [])

/-- The operation of a query that belongs to no resource. -/
def queryOperation (g : TypeGraph) (f : Field) : Operation :=
  annotate f
    { operationId := some f.name
      summary := some (summarised f).summary
      description := unlessEmpty (summarised f).description
      parameters := f.arguments.map (parameter g .query)
      responses := jsonResponses (g.fragment f.type) }

def queryEndpoint (g : TypeGraph) (f : Field) : Endpoint :=
  { origin := .query f.name
    route := nameRoute f.name
    method := .get
    operation := queryOperation g f }

/-- The queries that belong to no resource. -/
def remainingQueries (patterns : List ResourcePattern) (fields : List Field) : List Field :=
  let consumed := patterns.flatMap consumedQueries
  fields.filter fun f => !consumed.contains f.name && !isReservedName f.name

def queries (g : TypeGraph) (patterns : List ResourcePattern) (fields : List Field) :
    List Endpoint :=
  patterns.flatMap readResource ++ (remainingQueries patterns fields).map (queryEndpoint g)

/-! ## Members -/

/-- Whether a field of an object type is a collection of its own. -/
def isCollection (g : TypeGraph) (f : Field) : Bool :=
  f.type.isList && !(g.role f.type.innermost).isScalar

/-- The collection of a field below its owner. -/
def memberEndpoint (rules : InflectionRules) (owner : String) (f : Field) : Endpoint :=
  { origin := .member owner f.name
    route := itemRoute (collectionName rules owner) ++ nameRoute f.name
    method := .get
    operation :=
      { operationId := some ("get" ++ owner ++ Text.capitalize f.name)
        summary := some ("Get " ++ f.name ++ " by " ++ Text.lowerAscii owner)
        parameters := [.idInPath]
        responses := jsonResponses (.array (.referTo f.type.innermost)) } }

def membersOf (g : TypeGraph) (rules : InflectionRules) (d : TypeDefinition) : List Endpoint :=
  match d.body with
  | .object _ fields => (fields.filter (isCollection g)).map (memberEndpoint rules d.name)
  | _ => []

def members (g : TypeGraph) (rules : InflectionRules) : List Endpoint :=
  (g.types.filter (isExposed g)).flatMap (membersOf g rules)

end GraphRest.Endpoint
