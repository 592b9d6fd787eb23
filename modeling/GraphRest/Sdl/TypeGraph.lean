import GraphRest.Sdl.Definition
import GraphRest.Sdl.Grammar

/-!
# Type graphs

The types of a schema after its extensions have been added to them, and its root operation types. Main
definition: `TypeGraph.ofSource?`, which reads a source and fails on one that is not well formed or
defines something twice.
-/

namespace GraphRest.Sdl

/-- The names of the types that the operations of a schema start from. -/
structure Roots where
  query : Option String := none
  mutation : Option String := none
  subscription : Option String := none
  deriving DecidableEq

/-- Whether a name is that of a root type. -/
def Roots.contains (roots : Roots) (name : String) : Bool :=
  [roots.query, roots.mutation, roots.subscription].contains (some name)

/-- The types of a schema: the declared ones in order of declaration, the built-in ones, and the
roots. -/
structure TypeGraph where
  types : List TypeDefinition
  builtIn : List TypeDefinition
  roots : Roots

namespace TypeGraph

def type? (g : TypeGraph) (name : String) : Option TypeDefinition :=
  (g.types ++ g.builtIn).find? (·.name = name)

def objectFields? (g : TypeGraph) (name : String) : Option (List Field) :=
  (g.type? name).bind fun d => match d.body with
    | .object _ fields => some fields
    | _ => none

/-- The fields of a root type; one that is missing or no object type has none. -/
def rootFields (g : TypeGraph) (root : Option String) : Option (List Field) :=
  root.bind g.objectFields?

end TypeGraph

/-! ## Extensions -/

/-- The members of a body with those of another body of the same kind behind them. -/
def Body.append : Body → Body → Body
  | .object is fs, .object is' fs' => .object (is ++ is') (fs ++ fs')
  | .interface is fs, .interface is' fs' => .interface (is ++ is') (fs ++ fs')
  | .union ms, .union ms' => .union (ms ++ ms')
  | .enum vs, .enum vs' => .enum (vs ++ vs')
  | .input fs, .input fs' => .input (fs ++ fs')
  | b, _ => b

/-- Adds an extension to a type of its kind; one of another kind changes nothing. -/
def TypeDefinition.extend (d e : TypeDefinition) : TypeDefinition :=
  if d.body.kind = e.body.kind then
    { d with directives := d.directives ++ e.directives, body := d.body.append e.body }
  else d

def declaredTypes (ds : List Definition) : List TypeDefinition :=
  ds.filterMap fun | .type d => some d | _ => none

def typeExtensions (ds : List Definition) : List TypeDefinition :=
  ds.filterMap fun | .extendType e => some e | _ => none

/-- The names of the directive definitions of a source. -/
def declaredDirectives (ds : List Definition) : List String :=
  ds.filterMap fun | .directive name => some name | _ => none

/-- A type with all its extensions, in the order of the source. -/
def TypeDefinition.extended (ds : List Definition) (d : TypeDefinition) : TypeDefinition :=
  ((typeExtensions ds).filter (·.name = d.name)).foldl TypeDefinition.extend d

/-! ## Roots -/

abbrev Root := OperationKind × String

def rootsOf (entries : List RootEntry) : List Root :=
  entries.filterMap fun e => e.type.map (e.kind, ·)

def schemaDefinitions (ds : List Definition) : List (List RootEntry) :=
  ds.filterMap fun | .schema entries => some entries | _ => none

def schemaExtensions (ds : List Definition) : List (List RootEntry) :=
  ds.filterMap fun | .extendSchema entries => some entries | _ => none

/-- The roots of a source without a schema definition: the object types with the usual names. -/
def impliedRoots (ds : List Definition) : List Root :=
  [(OperationKind.query, "Query"), (.mutation, "Mutation"), (.subscription, "Subscription")].filter
    fun root => (declaredTypes ds).any fun d => d.name = root.2 && d.body.kind = .object

/-- The roots that the schema definition gives, or else the implied ones. -/
def baseRoots (ds : List Definition) : List Root :=
  match schemaDefinitions ds with
  | entries :: _ => rootsOf entries
  | [] => impliedRoots ds

/-- All roots of a source, those of schema extensions last. -/
def allRoots (ds : List Definition) : List Root :=
  baseRoots ds ++ (schemaExtensions ds).flatMap rootsOf

/-! ## Well-formed sources -/

/-- Whether the members of a body have distinct names. -/
def Body.Distinct : Body → Prop
  | .scalar => True
  | .object is fs => is.Nodup ∧ (fs.map Field.name).Nodup
  | .interface is fs => is.Nodup ∧ (fs.map Field.name).Nodup
  | .union ms => ms.Nodup
  | .enum vs => vs.Nodup
  | .input fs => (fs.map InputValue.name).Nodup

instance (b : Body) : Decidable b.Distinct := by
  cases b <;> unfold Body.Distinct <;> infer_instance

/-- Whether every extension behind the definition of its type has the kind of the type. An extension in
front of a definition of another kind is ignored. -/
def lateExtensionsFit (seen : List TypeDefinition) : List Definition → Bool
  | [] => true
  | .type d :: ds => lateExtensionsFit (d :: seen) ds
  | .extendType e :: ds =>
      seen.all (fun d => d.name ≠ e.name || d.body.kind = e.body.kind) && lateExtensionsFit seen ds
  | _ :: ds => lateExtensionsFit seen ds

/-- Whether a text is a name: it begins with a letter or an underscore and goes on with letters, digits
and underscores. -/
def isName (s : String) : Bool :=
  match s.toList with
  | [] => false
  | c :: r => startsName c && r.all isNameChar

/-- The names in an argument of a field or a field of an input type. -/
def InputValue.names (v : InputValue) : List String := [v.name, v.type.innermost]

def Field.names (f : Field) : List String :=
  f.name :: f.type.innermost :: f.arguments.flatMap InputValue.names

def Body.names : Body → List String
  | .scalar => []
  | .object interfaces fields => interfaces ++ fields.flatMap Field.names
  | .interface interfaces fields => interfaces ++ fields.flatMap Field.names
  | .union members => members
  | .enum values => values
  | .input fields => fields.flatMap InputValue.names

/-- The names in a definition or an extension. -/
def Definition.names : Definition → List String
  | .schema roots => roots.filterMap RootEntry.type
  | .extendSchema roots => roots.filterMap RootEntry.type
  | .type d => d.name :: d.body.names
  | .extendType e => e.name :: e.body.names
  | .directive name => [name]

/-- The names of all types of a source, the built-in ones among them. -/
def typeNames (ds : List Definition) : List String :=
  (declaredTypes ds ++ BuiltIn.types).map TypeDefinition.name

/-- What a source has to keep: all names are names, nothing is defined twice, and extensions extend what
exists. -/
structure WellFormed (ds : List Definition) : Prop where
  legal_names : ∀ d ∈ ds, ∀ name ∈ d.names, isName name = true
  distinct_types : (typeNames ds).Nodup
  distinct_directives : (declaredDirectives ds).Nodup
  extensions_declared : ∀ e ∈ typeExtensions ds, e.name ∈ typeNames ds
  extensions_fit : lateExtensionsFit BuiltIn.types ds = true
  distinct_members :
    ∀ d ∈ declaredTypes ds ++ BuiltIn.types, (d.extended ds).body.Distinct
  one_schema : (schemaDefinitions ds).length ≤ 1
  distinct_roots : ((allRoots ds).map Prod.fst).Nodup
  schema_extended : schemaDefinitions ds = [] → baseRoots ds = [] → schemaExtensions ds = []

instance (ds : List Definition) : Decidable (WellFormed ds) :=
  decidable_of_iff
    ((∀ d ∈ ds, ∀ name ∈ d.names, isName name = true) ∧
      (typeNames ds).Nodup ∧ (declaredDirectives ds).Nodup ∧
      (∀ e ∈ typeExtensions ds, e.name ∈ typeNames ds) ∧
      lateExtensionsFit BuiltIn.types ds = true ∧
      (∀ d ∈ declaredTypes ds ++ BuiltIn.types, (d.extended ds).body.Distinct) ∧
      (schemaDefinitions ds).length ≤ 1 ∧ ((allRoots ds).map Prod.fst).Nodup ∧
      ((schemaDefinitions ds).isEmpty = true → (baseRoots ds).isEmpty = true →
        (schemaExtensions ds).isEmpty = true))
    ⟨fun ⟨n, a, b, c, d, e, f, g, h⟩ => ⟨n, a, b, c, d, e, f, g, by simpa using h⟩,
      fun h => ⟨h.1, h.2, h.3, h.4, h.5, h.6, h.7, h.8, by simpa using h.9⟩⟩

namespace TypeGraph

def ofDefinitions (ds : List Definition) : TypeGraph :=
  { types := (declaredTypes ds).map (·.extended ds)
    builtIn := BuiltIn.types.map (·.extended ds)
    roots :=
      { query := (allRoots ds).lookup .query
        mutation := (allRoots ds).lookup .mutation
        subscription := (allRoots ds).lookup .subscription } }

/-- The type graph of a schema source, if the source is well formed. -/
def ofSource? (source : List Char) : Option TypeGraph := do
  let lexemes ← lexemes? source
  let ds ← definitions? (lexemes.map Lexeme.token)
  if WellFormed ds then some (ofDefinitions ds) else none

end TypeGraph

end GraphRest.Sdl
