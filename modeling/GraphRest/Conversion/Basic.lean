import GraphRest.Endpoint.Query
import GraphRest.Endpoint.Mutation
import GraphRest.Endpoint.Subscription
import GraphRest.Header

/-!
# Conversion

From the source of a GraphQL schema to an OpenAPI document: metadata, components, resources, and the
endpoints of queries, members, mutations and subscriptions, in this order.
-/

namespace GraphRest

open Sdl

/-- The outcome of a conversion: the document, and the resources found on the way. -/
structure Conversion where
  document : Document
  patterns : List ResourcePattern

namespace Conversion

def queryFields (g : TypeGraph) : List Field := (g.rootFields g.roots.query).getD []

def mutationFields (g : TypeGraph) : List Field := (g.rootFields g.roots.mutation).getD []

def subscriptionFields (g : TypeGraph) : List Field := (g.rootFields g.roots.subscription).getD []

/-- The resources of a schema; none if they are not to be detected. -/
def patternsOf (g : TypeGraph) (options : Options) : List ResourcePattern :=
  if options.detectResources then
    detectResources (queryFields g) (mutationFields g) options.inflection options.mutationPrefixes
  else []

/-- All endpoints of a schema, in the order in which they are written. -/
def endpoints (g : TypeGraph) (options : Options) (patterns : List ResourcePattern) :
    List Endpoint :=
  Endpoint.queries g patterns (queryFields g) ++
    Endpoint.members g options.inflection ++
    Endpoint.mutations g options.mutationPrefixes patterns (mutationFields g) ++
    Endpoint.subscriptions g (subscriptionFields g)

/-- A document with components written into it, one after another. -/
def writeComponents (cs : List (String × Fragment)) (d : Document) : Document :=
  cs.foldl (fun d c => d.insertComponent c.1 c.2) d

/-- The conversion of a type graph whose source is at hand for the header. -/
def ofGraph (options : Options) (source : String) (g : TypeGraph) : Conversion :=
  let patterns := patternsOf g options
  let empty := Document.new (Header.info options source) (Header.servers options)
  { document := Endpoint.writeAll options (endpoints g options patterns)
      (writeComponents (components g options.inflection) empty)
    patterns }

end Conversion

/-- Converts a schema source; `none` if it is not well formed. -/
def convert? (options : Options) (source : String) : Option Conversion :=
  (TypeGraph.ofSource? source.toList).map (Conversion.ofGraph options source)

end GraphRest
