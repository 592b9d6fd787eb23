import GraphRest.Data.OrderedMap
import GraphRest.Document.Fragment

/-!
# Operations

What a path of an OpenAPI document offers: its operations with their parameters, bodies and responses.
-/

namespace GraphRest

/-- Where a parameter is carried. -/
inductive ParameterLocation where
  | query
  | path
  | header
  | cookie
  deriving DecidableEq

def ParameterLocation.word : ParameterLocation → String
  | query => "query"
  | path => "path"
  | header => "header"
  | cookie => "cookie"

/-- A parameter of an operation. -/
structure Parameter where
  name : String
  location : ParameterLocation
  description : Option String := none
  required : Bool := false
  schema : Option Fragment := none
  style : Option String := none
  explode : Bool := false

/-- The `id` in the path of a single resource. -/
def Parameter.idInPath : Parameter :=
  { name := "id", location := .path, required := true, schema := some .string }

/-- What a body or a response holds in one media type. -/
structure MediaType where
  schema : Option Fragment := none

/-- What is sent along with a request. -/
structure RequestBody where
  description : Option String := none
  required : Bool := false
  content : OrderedMap MediaType

/-- What is sent back. -/
structure Response where
  description : String
  content : OrderedMap MediaType

def Response.ofContent (description mediaType : String) (schema : Fragment) : Response :=
  { description, content := [(mediaType, { schema := some schema })] }

/-- An operation on a path. -/
structure Operation where
  operationId : Option String := none
  summary : Option String := none
  description : Option String := none
  parameters : List Parameter := []
  requestBody : Option RequestBody := none
  responses : OrderedMap Response := []
  deprecated : Bool := false

/-- The HTTP methods that a path can offer. -/
inductive Method where
  | get
  | post
  | put
  | delete
  | patch
  | options
  deriving DecidableEq

namespace Method

/-- All methods, in the order of a path item. -/
def all : List Method := [get, post, put, delete, patch, options]

def word : Method → String
  | get => "get"
  | post => "post"
  | put => "put"
  | delete => "delete"
  | patch => "patch"
  | options => "options"

end Method

/-- The operations of a path, at most one for each method. -/
structure PathItem where
  get : Option Operation := none
  post : Option Operation := none
  put : Option Operation := none
  delete : Option Operation := none
  patch : Option Operation := none
  options : Option Operation := none

namespace PathItem

def operation? (item : PathItem) : Method → Option Operation
  | .get => item.get
  | .post => item.post
  | .put => item.put
  | .delete => item.delete
  | .patch => item.patch
  | .options => item.options

/-- The item with an operation in place of the one its method had. -/
def set (item : PathItem) (method : Method) (operation : Operation) : PathItem :=
  match method with
  | .get => { item with get := some operation }
  | .post => { item with post := some operation }
  | .put => { item with put := some operation }
  | .delete => { item with delete := some operation }
  | .patch => { item with patch := some operation }
  | .options => { item with options := some operation }

theorem operation?_set (item : PathItem) (m m' : Method) (operation : Operation) :
    (item.set m operation).operation? m' =
      if m' = m then some operation else item.operation? m' := by
  cases m <;> cases m' <;> rfl

/-- The operations of the item with their methods. -/
def operations (item : PathItem) : List (Method × Operation) :=
  Method.all.filterMap fun m => (item.operation? m).map (m, ·)

end PathItem

/-! ## Data trees -/

def Parameter.tree (p : Parameter) : Tree :=
  .fields (
    Tree.field "name" (.text p.name) ++
    Tree.field "in" (.text p.location.word) ++
    Tree.optional "description" .text p.description ++
    Tree.flag "required" p.required ++
    Tree.optional "schema" Fragment.tree p.schema ++
    Tree.optional "style" .text p.style ++
    Tree.flag "explode" p.explode)

/-- A media type as a data tree. -/
def MediaType.tree (m : MediaType) : Tree :=
  .fields (Tree.optional "schema" Fragment.tree m.schema)

def contentTrees (content : OrderedMap MediaType) : List (String × Tree) :=
  content.map fun (name, m) => (name, m.tree)

/-- A request body as a data tree. -/
def RequestBody.tree (b : RequestBody) : Tree :=
  .fields (
    Tree.optional "description" .text b.description ++
    Tree.flag "required" b.required ++
    Tree.field "content" (.fields (contentTrees b.content)))

def Response.tree (r : Response) : Tree :=
  .fields (
    Tree.field "description" (.text r.description) ++
    Tree.nonEmptyFields "content" (contentTrees r.content))

/-- An operation as a data tree. Its responses are always written. -/
def Operation.tree (o : Operation) : Tree :=
  .fields (
    Tree.optional "operationId" .text o.operationId ++
    Tree.optional "summary" .text o.summary ++
    Tree.optional "description" .text o.description ++
    Tree.nonEmptyList "parameters" (o.parameters.map Parameter.tree) ++
    Tree.optional "requestBody" RequestBody.tree o.requestBody ++
    Tree.field "responses" (.fields (o.responses.map fun (status, r) => (status, r.tree))) ++
    Tree.flag "deprecated" o.deprecated)

/-- A path item as a data tree. -/
def PathItem.tree (item : PathItem) : Tree :=
  .fields (item.operations.map fun (m, o) => (m.word, o.tree))

end GraphRest
