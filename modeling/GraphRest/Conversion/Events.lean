import GraphRest.Conversion.Basic
import GraphRest.Log.Basic
import GraphRest.Text.Quoted

/-!
# Events of a conversion

What a conversion has to tell about its decisions, in the order in which it takes them. The events are a
function of the schema and the options beside the conversion itself.
-/

namespace GraphRest

open Sdl

namespace LogEvent

/-- An argument of a `@constraint` directive that has no text. -/
def ignoredArgument (name : String) : LogEvent :=
  { level := .debug, message := "ignoring non-scalar constraint argument"
    fields := [("argument", name)] }

/-- A list that no property is made for. -/
def listLeftOut (field type : String) : LogEvent :=
  { level := .debug, message := "list field becomes a sub-resource"
    fields := [("field", Text.quoted field), ("ty", type)] }

/-- A type that has become a component. -/
def componentMade (name : String) : LogEvent :=
  { level := .debug, message := "converted type to component schema", fields := [("name", name)] }

/-- A scalar that no component is made for. -/
def scalarInlined (name : String) : LogEvent :=
  { level := .debug, message := "custom scalar is inlined where used", fields := [("name", name)] }

def detectionOff : LogEvent := { level := .debug, message := "REST pattern detection disabled" }

/-- A resource that lacks what it needs. -/
def incomplete (resource : String) (operations : CrudSet) : LogEvent :=
  { level := .debug, message := "resource candidate lacks a list query or create mutation"
    fields := [("resource", resource), ("operations",
      "EnumSet(" ++
        String.intercalate " | " (operations.toList.map fun o => Text.capitalize o.word) ++ ")")] }

def queryMade (name : String) : LogEvent :=
  { level := .debug, message := "query emitted as GET /" ++ name
    fields := [("field", Text.quoted name)] }

def mutationMade (name : String) : LogEvent :=
  { level := .debug, message := "mutation emitted as POST /" ++ name
    fields := [("field", Text.quoted name)] }

/-- A mutation that a resource expects and that does not exist. -/
def mutationMissing (e : Endpoint.ExpectedMutation) : LogEvent :=
  { level := .warn, message := "mutation for detected resource not found, skipping endpoint"
    fields := [("resource", e.pattern.resource), ("operation", e.kind.word), ("field", e.name)] }

end LogEvent

namespace Conversion

def directiveEvents (ds : List DirectiveUse) : List LogEvent :=
  (Notice.ignoredArguments ds).map LogEvent.ignoredArgument

/-- The directives in the declaration of a scalar. -/
def scalarDirectives (g : TypeGraph) (name : String) : List DirectiveUse :=
  match g.type? name with
  | some ⟨_, _, directives, .scalar⟩ => directives
  | _ => []

def memberEvents (g : TypeGraph) (m : Member) : List LogEvent :=
  let type := m.type.innermost
  directiveEvents m.directives ++ directiveEvents (scalarDirectives g type) ++
    if (g.role type).isStructured && m.type.isList then [.listLeftOut m.name type] else []

def membersOf (d : TypeDefinition) : List Member :=
  match d.body with
  | .object _ fields => fields.map Member.ofField
  | .interface _ fields => fields.map Member.ofField
  | .input fields => fields.map Member.ofInput
  | _ => []

def typeEvents (g : TypeGraph) (d : TypeDefinition) : List LogEvent :=
  match d.body with
  | .scalar => [.scalarInlined d.name]
  | _ => (membersOf d).flatMap (memberEvents g) ++ [.componentMade d.name]

def detectionEvents (g : TypeGraph) (options : Options) : List LogEvent :=
  if options.detectResources then
    let cs := candidates (queryFields g) (mutationFields g) options.inflection
      options.mutationPrefixes
    (cs.entries.filter fun (_, c) => !c.isComplete).map fun (resource, c) =>
      .incomplete resource c.operations
  else [.detectionOff]

/-- The events of the queries at their own names. -/
def queryEvents (g : TypeGraph) (patterns : List ResourcePattern) : List LogEvent :=
  (Endpoint.remainingQueries patterns (queryFields g)).flatMap fun f =>
    .queryMade f.name :: directiveEvents f.directives

def mutationEvents (g : TypeGraph) (options : Options) (patterns : List ResourcePattern) :
    List LogEvent :=
  let fields := mutationFields g
  (Endpoint.expectedMutations options.mutationPrefixes patterns).flatMap (fun e =>
    match e.field? fields with
    | some f => directiveEvents f.directives
    | none => [.mutationMissing e]) ++
  (Endpoint.remainingMutations options.mutationPrefixes patterns fields).flatMap fun f =>
    .mutationMade f.name :: directiveEvents f.directives

def subscriptionEvents (g : TypeGraph) : List LogEvent :=
  ((subscriptionFields g).filter fun f => !isReservedName f.name).flatMap fun f =>
    directiveEvents f.directives

/-- All events of the conversion of a type graph. -/
def events (options : Options) (g : TypeGraph) : List LogEvent :=
  let patterns := patternsOf g options
  (g.types.filter (isExposed g)).flatMap (typeEvents g) ++ detectionEvents g options ++
    queryEvents g patterns ++ mutationEvents g options patterns ++ subscriptionEvents g

end Conversion

/-- The events of converting a schema source; none if it is not well formed. -/
def conversionEvents (options : Options) (source : String) : List LogEvent :=
  match TypeGraph.ofSource? source.toList with
  | some g => Conversion.events options g
  | none => []

end GraphRest
