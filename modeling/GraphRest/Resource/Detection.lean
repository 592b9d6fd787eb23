import GraphRest.Conversion.TypeRole
import GraphRest.Naming.Inflection
import GraphRest.Text.Case

/-!
# Detecting resources

A resource is found where root fields follow a naming convention: a list query under a plural name and
mutations that create, update or delete under the singular. Root query fields put candidates forward,
mutations complete them, and the candidates with a list query and a create mutation are the resources of the
schema, in byte order of their names.
-/

namespace GraphRest

/-! ## Resource patterns -/

/-- An operation on a resource. -/
inductive CrudOperation where
  | list
  | get
  | create
  | update
  | delete
  deriving DecidableEq

namespace CrudOperation

def all : List CrudOperation := [list, get, create, update, delete]

def word : CrudOperation → String
  | list => "list"
  | get => "get"
  | create => "create"
  | update => "update"
  | delete => "delete"

end CrudOperation

/-- A set of operations on a resource. -/
structure CrudSet where
  list : Bool := false
  get : Bool := false
  create : Bool := false
  update : Bool := false
  delete : Bool := false
  deriving DecidableEq

namespace CrudSet

def has (s : CrudSet) : CrudOperation → Bool
  | .list => s.list
  | .get => s.get
  | .create => s.create
  | .update => s.update
  | .delete => s.delete

def insert (s : CrudSet) : CrudOperation → CrudSet
  | .list => { s with list := true }
  | .get => { s with get := true }
  | .create => { s with create := true }
  | .update => { s with update := true }
  | .delete => { s with delete := true }

/-- The operations of the set, in order. -/
def toList (s : CrudSet) : List CrudOperation := CrudOperation.all.filter s.has

theorem has_insert (s : CrudSet) (o o' : CrudOperation) :
    (s.insert o).has o' = (decide (o' = o) || s.has o') := by
  cases o <;> cases o' <;> rfl

end CrudSet

/-- A resource: its name in singular and plural, the type it is made of and what can be done with
it. -/
structure ResourcePattern where
  resource : String
  plural : String
  target : String
  operations : CrudSet
  deriving DecidableEq

/-- Whether an operation was found for the resource. -/
def ResourcePattern.has (p : ResourcePattern) (o : CrudOperation) : Bool := p.operations.has o

def ResourcePattern.display (p : ResourcePattern) : String :=
  "'" ++ p.resource ++ "': consolidated " ++ toString p.operations.toList.length ++
    " operations -> /" ++ p.plural

open Sdl

/-! ## Detection -/

/-- A resource that is not complete yet. -/
structure Candidate where
  plural : String
  target : String
  operations : CrudSet

abbrev Candidates := SortedMap Candidate

/-- Whether the only argument of a field is its `id`. -/
def takesOnlyId (f : Field) : Bool := f.arguments.map InputValue.name = ["id"]

/-- The resource that a list query belongs to and the type of its elements: the name has a singular that
differs from it. -/
def listedResource? (rules : InflectionRules) (f : Field) : Option (String × String) :=
  f.type.listedName?.bind fun element =>
    let singular := rules.singularize f.name
    if singular = f.name then none else some (singular, element)

/-- Notes a list query on the resource that it belongs to. -/
def noteList (rules : InflectionRules) (f : Field) (cs : Candidates) : Candidates :=
  match listedResource? rules f with
  | some (resource, element) =>
      cs.upsert resource fun c =>
        { plural := f.name
          target := element
          operations := ((c.map Candidate.operations).getD {}).insert .list }
  | none => cs

/-- Whether a field gets a single resource by its `id`: it is named after its type. -/
def getsById (rules : InflectionRules) (f : Field) : Bool :=
  takesOnlyId f &&
    (f.name = rules.singularize f.type.innermost ||
      Text.lowerAscii f.name = Text.lowerAscii f.type.innermost)

/-- Notes a query for a single resource. -/
def noteGet (rules : InflectionRules) (f : Field) (cs : Candidates) : Candidates :=
  if getsById rules f then
    cs.upsert f.name fun c =>
      { plural := (c.map Candidate.plural).getD (rules.pluralize f.name)
        target := f.type.innermost
        operations := ((c.map Candidate.operations).getD {}).insert .get }
  else cs

/-- Notes what a query field says on resources. -/
def noteQuery (rules : InflectionRules) (cs : Candidates) (f : Field) : Candidates :=
  if isReservedName f.name then cs else noteGet rules f (noteList rules f cs)

/-- The mutations on a resource with the beginnings of their names. -/
def MutationPrefixes.operations (prefixes : MutationPrefixes) : List (String × CrudOperation) :=
  [(prefixes.create, .create), (prefixes.update, .update), (prefixes.delete, .delete)]

/-- The resource that a mutation changes, if its name begins with a prefix that is not empty. -/
def mutatedResource? (start name : String) : Option String :=
  if start.isEmpty then none else (Text.after? start name).map Text.uncapitalize

/-- Notes a mutation on a candidate of its resource, if there is one. -/
def noteMutation (cs : Candidates) (name : String) (start : String × CrudOperation) : Candidates :=
  match mutatedResource? start.1 name with
  | some resource =>
      cs.mapValues fun r c =>
        if r = resource then { c with operations := c.operations.insert start.2 } else c
  | none => cs

/-- Notes what a mutation field says on resources. -/
def noteMutations (prefixes : MutationPrefixes) (cs : Candidates) (f : Field) : Candidates :=
  prefixes.operations.foldl (fun cs start => noteMutation cs f.name start) cs

/-- The candidates that the root fields put forward. -/
def candidates (query mutation : List Field) (rules : InflectionRules)
    (prefixes : MutationPrefixes) : Candidates :=
  mutation.foldl (noteMutations prefixes) (query.foldl (noteQuery rules) .empty)

/-- Whether a candidate has a list query and a create mutation. -/
def Candidate.isComplete (c : Candidate) : Bool := c.operations.list && c.operations.create

def completePatterns (cs : Candidates) : List ResourcePattern :=
  (cs.entries.filter (·.2.isComplete)).map fun (resource, c) =>
    { resource, plural := c.plural, target := c.target, operations := c.operations }

/-- The resources that the root fields of a schema make up. -/
def detectResources (query mutation : List Field) (rules : InflectionRules)
    (prefixes : MutationPrefixes) : List ResourcePattern :=
  completePatterns (candidates query mutation rules prefixes)

end GraphRest
