import GraphRest.Endpoint.Basic
import GraphRest.Resource.Detection

/-!
# Endpoints of mutations

A resource is created in its collection, updated and deleted at its item. Every other mutation is posted
to a route of its own name.
-/

namespace GraphRest.Endpoint

open Sdl

/-- The summary of a mutation and its description: those of the field, or a fallback for both if there is
one, or the title alone. -/
def mutationTexts (f : Field) (fallback : Option String) : String × Option String :=
  match nonEmpty f.description with
  | some _ => ((summarised f).summary, unlessEmpty (summarised f).description)
  | none =>
      match fallback with
      | some text => (text, some text)
      | none => (Naming.title f.name, none)

/-- The operation of a mutation, which sends all arguments in its body. -/
def mutationOperation (g : TypeGraph) (f : Field) (fallback : Option String) : Operation :=
  annotate f
    { operationId := some f.name
      summary := some (mutationTexts f fallback).1
      description := (mutationTexts f fallback).2
      requestBody := requestBody? g f.arguments
      responses := jsonResponses (g.fragment f.type) }

/-- The operation with the `id` of a single resource as its first parameter. -/
def atItem (o : Operation) : Operation :=
  { o with parameters := .idInPath :: o.parameters }

/-- The operation of deleting a single resource. If the `id` is the only argument, it moves from the body
to the path. -/
def deletion (f : Field) (o : Operation) : Operation :=
  if takesOnlyId f then { o with parameters := [.idInPath], requestBody := none } else atItem o

/-- The verb for a mutation on a resource. -/
def verb : CrudOperation → String
  | .create => "Create"
  | .update => "Update"
  | .delete => "Delete"
  | _ => ""

/-- The endpoint of a mutation on a resource. -/
def changeResource (g : TypeGraph) (p : ResourcePattern) (kind : CrudOperation) (f : Field) :
    Endpoint :=
  let operation := mutationOperation g f (some (verb kind ++ " " ++ p.resource))
  match kind with
  | .update =>
      { origin := .mutation f.name
        route := itemRoute p.plural
        method := .put
        operation := atItem operation }
  | .delete =>
      { origin := .mutation f.name
        route := itemRoute p.plural
        method := .delete
        operation := deletion f operation }
  | _ =>
      { origin := .mutation f.name
        route := nameRoute p.plural
        method := .post
        operation }

/-- The name of the mutation that a resource expects behind a prefix. -/
def expectedMutation (start : String) (p : ResourcePattern) : String :=
  start ++ Text.capitalize p.resource

/-- A mutation that a resource has an operation for. -/
structure ExpectedMutation where
  pattern : ResourcePattern
  kind : CrudOperation
  name : String

/-- The mutations that stand behind resources, by the names they should have. -/
def expectedMutations (prefixes : MutationPrefixes) (patterns : List ResourcePattern) :
    List ExpectedMutation :=
  patterns.flatMap fun p =>
    (prefixes.operations.filter fun (_, kind) => p.has kind).map fun (start, kind) =>
      { pattern := p, kind, name := expectedMutation start p }

def ExpectedMutation.field? (e : ExpectedMutation) (fields : List Field) : Option Field :=
  fields.find? (·.name = e.name)

/-- The endpoints of the mutations that stand behind resources. -/
def changeResources (g : TypeGraph) (prefixes : MutationPrefixes) (patterns : List ResourcePattern)
    (fields : List Field) : List Endpoint :=
  (expectedMutations prefixes patterns).filterMap fun e =>
    (e.field? fields).map (changeResource g e.pattern e.kind)

/-- The names of the mutations that stand behind resources. -/
def consumedMutations (prefixes : MutationPrefixes) (patterns : List ResourcePattern)
    (fields : List Field) : List String :=
  (expectedMutations prefixes patterns).filterMap fun e => (e.field? fields).map Field.name

def mutationEndpoint (g : TypeGraph) (f : Field) : Endpoint :=
  { origin := .mutation f.name
    route := nameRoute f.name
    method := .post
    operation := mutationOperation g f none }

/-- The mutations that belong to no resource. -/
def remainingMutations (prefixes : MutationPrefixes) (patterns : List ResourcePattern)
    (fields : List Field) : List Field :=
  let consumed := consumedMutations prefixes patterns fields
  fields.filter fun f => !consumed.contains f.name && !isReservedName f.name

def mutations (g : TypeGraph) (prefixes : MutationPrefixes) (patterns : List ResourcePattern)
    (fields : List Field) : List Endpoint :=
  changeResources g prefixes patterns fields ++
    (remainingMutations prefixes patterns fields).map (mutationEndpoint g)

end GraphRest.Endpoint
