import GraphRest.Document.Operation
import GraphRest.Json.Writer
import GraphRest.Text.Case
import GraphRest.Yaml.Writer

/-!
# OpenAPI documents

A document, the writes that fill it, and the text formats it is rendered in. Paths and components stand in
the order in which they are first mentioned, and a later write to the same place replaces an earlier one.
-/

namespace GraphRest

/-! ## Metadata -/

/-- The metadata of an API. -/
structure Info where
  title : String := ""
  description : Option String := none
  version : String := ""
  deriving DecidableEq

/-- A server that offers the API. -/
structure Server where
  url : String
  description : Option String := none
  deriving DecidableEq

/-! ## Documents -/

/-- An OpenAPI document. Its section of components may be missing, which is not the same as an empty
one. -/
structure Document where
  openApi : String
  info : Info
  servers : List Server
  paths : OrderedMap PathItem
  componentSection : Option (OrderedMap Fragment)

namespace Document

/-- The version of OpenAPI that documents follow. -/
def openApiVersion : String := "3.0.0"

def new (info : Info) (servers : List Server) : Document :=
  { openApi := openApiVersion, info, servers, paths := [], componentSection := some [] }

/-- The components of a document; without a section of them there are none. -/
def components (d : Document) : OrderedMap Fragment := d.componentSection.getD []

def insertComponent (name : String) (schema : Fragment) (d : Document) : Document :=
  { d with componentSection := some (d.components.insert name schema) }

/-- Mentions a path, which has no operation unless it was mentioned before. -/
def mentionPath (path : String) (d : Document) : Document :=
  { d with paths := d.paths.upsert path fun item => item.getD {} }

/-- Writes the operation of a method on a path. -/
def insertOperation (path : String) (method : Method) (operation : Operation) (d : Document) :
    Document :=
  { d with paths := d.paths.upsert path fun item => (item.getD {}).set method operation }

/-- The operation of a method on a path. -/
def operation? (d : Document) (path : String) (method : Method) : Option Operation :=
  (d.paths.get? path).bind (·.operation? method)

/-- All operations of a document with their paths and methods, path by path. -/
def operations (d : Document) : List (String × Method × Operation) :=
  d.paths.flatMap fun (path, item) => item.operations.map fun (m, o) => (path, m, o)

/-! ## Reading back what was written -/

theorem operation?_insertOperation (d : Document) (p p' : String) (m m' : Method) (o : Operation) :
    (d.insertOperation p m o).operation? p' m' =
      if p' = p ∧ m' = m then some o else d.operation? p' m' := by
  by_cases hp : p' = p
  · subst hp
    simp only [operation?, insertOperation, OrderedMap.get?_upsert_self, Option.bind_some,
      PathItem.operation?_set, true_and]
    cases d.paths.get? p' <;> cases m' <;> rfl
  · simp [operation?, insertOperation, OrderedMap.get?_upsert_of_ne hp, hp]

/-! ## Data trees -/

def infoTree (i : Info) : Tree :=
  .fields (
    Tree.field "title" (.text i.title) ++
    Tree.optional "description" .text i.description ++
    Tree.field "version" (.text i.version))

def serverTree (s : Server) : Tree :=
  .fields (Tree.field "url" (.text s.url) ++ Tree.optional "description" .text s.description)

/-- The section of components as a data tree. -/
def componentsTree (components : OrderedMap Fragment) : Tree :=
  .fields (Tree.nonEmptyFields "schemas" (Fragment.propertyTrees components))

/-- A document as a data tree. Paths are always written, and so is the section of components if there is
one. -/
def tree (d : Document) : Tree :=
  .fields (
    Tree.field "openapi" (.text d.openApi) ++
    Tree.field "info" (infoTree d.info) ++
    Tree.nonEmptyList "servers" (d.servers.map serverTree) ++
    Tree.field "paths" (.fields (d.paths.map fun (path, item) => (path, item.tree))) ++
    Tree.optional "components" componentsTree d.componentSection)

end Document

/-! ## Text formats -/

/-- The text format of a document. -/
inductive OutputFormat where
  | yaml
  | json
  deriving DecidableEq

namespace OutputFormat

def word : OutputFormat → String
  | yaml => "yaml"
  | json => "json"

/-- The format of a word in any case. -/
def ofWord? (w : String) : Option OutputFormat :=
  let lower := Text.lowerAscii w
  if lower = "yaml" ∨ lower = "yml" then some yaml
  else if lower = "json" then some json
  else none

/-- What is said on a word that names no format. -/
def unknownMessage (w : String) : String :=
  "unknown output format '" ++ Text.lowerAscii w ++ "', expected yaml or json"

/-- The text of a data tree in a format. -/
def render (format : OutputFormat) (t : Tree) : String :=
  match format with
  | yaml => Yaml.text t
  | json => Json.prettyText t

end OutputFormat

/-- The text of a document in a format. -/
def Document.render (d : Document) (format : OutputFormat) : String := format.render d.tree

end GraphRest
