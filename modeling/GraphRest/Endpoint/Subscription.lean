import GraphRest.Endpoint.Basic

/-!
# Endpoints of subscriptions

A subscription is a stream of server-sent events. Its first argument that excludes null stands in the
path, all others in the query.
-/

namespace GraphRest.Endpoint

open Sdl

/-- The argument of a subscription that stands in its path. -/
def pathArgument? (f : Field) : Option InputValue := f.arguments.find? (·.type.isNonNull)

def subscriptionRoute (f : Field) : String :=
  match pathArgument? f with
  | some a => nameRoute f.name ++ "/" ++ placeholder a.name
  | none => nameRoute f.name

/-- The parameters of a subscription. `placed` says whether the path has its argument already. -/
def streamParameters (g : TypeGraph) (placed : Bool) : List InputValue → List Parameter
  | [] => []
  | a :: as =>
      if a.type.isNonNull && !placed then parameter g .path a :: streamParameters g true as
      else parameter g .query a :: streamParameters g placed as

/-- How the events of a subscription are framed. -/
def streamDescription (field event : String) : String :=
  "Server-Sent Events (SSE) stream.\n\n" ++
  "Each event is formatted as:\n" ++
  "  event: " ++ field ++ "\n" ++
  "  data: <JSON-encoded " ++ event ++ " object>\n\n" ++
  "Example:\n" ++
  "  event: " ++ field ++ "\n" ++
  "  data: \x7b\"id\":\"123\",...\x7d\n\n" ++
  "The connection remains open and events are pushed as they occur.\n" ++
  "Use the EventSource API in browsers or any SSE client library."

/-- The description of a subscription: that of the field, then how its events are framed. -/
def subscriptionDescription (f : Field) : String :=
  let stream := streamDescription f.name f.type.innermost
  if (summarised f).description.isEmpty then stream
  else (summarised f).description ++ "\n\n" ++ stream

def streamResponses (event : String) : OrderedMap Response :=
  [("200", .ofContent ("SSE stream of " ++ event ++ " events") eventStreamMediaType
    (Fragment.string.described ("Server-Sent Events stream. Each event contains a " ++ event ++
      " object in JSON format.")))]

def subscriptionOperation (g : TypeGraph) (f : Field) : Operation :=
  { annotate f
      { operationId := some ("subscribe" ++ Text.capitalize f.name)
        summary := some ("Subscribe: " ++ (summarised f).summary)
        description := some (subscriptionDescription f)
        responses := streamResponses f.type.innermost } with
    parameters := streamParameters g false f.arguments }

def subscriptionEndpoint (g : TypeGraph) (f : Field) : Endpoint :=
  { origin := .subscription f.name
    route := subscriptionRoute f
    method := .get
    operation := subscriptionOperation g f }

def subscriptions (g : TypeGraph) (fields : List Field) : List Endpoint :=
  (fields.filter fun f => !isReservedName f.name).map (subscriptionEndpoint g)

end GraphRest.Endpoint
