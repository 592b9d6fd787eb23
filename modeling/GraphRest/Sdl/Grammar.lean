import GraphRest.Sdl.Definition
import GraphRest.Sdl.Token

/-!
# The grammar of the schema language

Reading tokens as definitions. A reader takes the tokens of its construct off the head of a list and
answers the rest, or fails.
-/

namespace GraphRest.Sdl

/-- Takes a construct off the head of a list of tokens. -/
abbrev Reader (α : Type) := List Token → Option (α × List Token)

namespace Reader

variable {α : Type}

def mark (c : Char) : Reader Unit
  | .mark d :: ts => if d = c then some ((), ts) else none
  | _ => none

def name : Reader String
  | .name n :: ts => some (n, ts)
  | _ => none

def word (w : String) : Reader Unit
  | .name n :: ts => if n = w then some ((), ts) else none
  | _ => none

/-- Takes a string if one is ahead. -/
def description : List Token → Option String × List Token
  | .string s :: ts => (some s, ts)
  | ts => (none, ts)

def markAhead (c : Char) (ts : List Token) : Bool := ts.head? = some (.mark c)

def wordAhead (w : String) (ts : List Token) : Bool := ts.head? = some (.name w)

def nameAhead : List Token → Bool
  | .name _ :: _ => true
  | _ => false

/-- Whether a name is ahead, perhaps behind its description. -/
def memberAhead : List Token → Bool
  | .name _ :: _ => true
  | .string _ :: _ => true
  | _ => false

/-- Takes constructs as long as one is ahead. Each takes a token at least, so the number of tokens bounds
their number. -/
def whileAhead (ahead : List Token → Bool) (item : Reader α) : Nat → Reader (List α)
  | 0, ts => if ahead ts then none else some ([], ts)
  | fuel + 1, ts =>
      if ahead ts then do
        let (a, ts) ← item ts
        let (as, ts) ← whileAhead ahead item fuel ts
        return (a :: as, ts)
      else some ([], ts)

/-- Takes constructs as long as one is ahead. -/
def many (ahead : List Token → Bool) (item : Reader α) : Reader (List α) := fun ts =>
  if ahead ts then whileAhead ahead item ts.length ts else some ([], ts)

/-- Takes one construct at least between two marks. -/
def enclosed (opening closing : Char) (ahead : List Token → Bool) (item : Reader α) :
    Reader (List α) := fun ts => do
  let ((), ts) ← mark opening ts
  let (a, ts) ← item ts
  let (as, ts) ← many ahead item ts
  let ((), ts) ← mark closing ts
  return (a :: as, ts)

/-- Takes an enclosed list if its opening mark is ahead. -/
def enclosedIfAhead (opening closing : Char) (ahead : List Token → Bool) (item : Reader α) :
    Reader (List α) := fun ts =>
  if markAhead opening ts then enclosed opening closing ahead item ts else some ([], ts)

/-- Takes names with a mark between them, which may also stand in front of the first. -/
def separatedNames (separator : Char) : Reader (List String) := fun ts => do
  let ts := if markAhead separator ts then ts.tail else ts
  let (n, ts) ← name ts
  let (ns, ts) ← many (markAhead separator) (fun ts => do name (← mark separator ts).2) ts
  return (n :: ns, ts)

/-! ## Types and values -/

/-- Takes an exclamation mark if one is ahead. -/
def bang : List Token → Bool × List Token
  | .mark '!' :: ts => (true, ts)
  | ts => (false, ts)

def typeRef : Reader TypeRef
  | .name n :: ts => let (nonNull, ts) := bang ts; some (.named n nonNull, ts)
  | .mark '[' :: ts =>
      match typeRef ts with
      | some (element, .mark ']' :: ts) => let (nonNull, ts) := bang ts; some (.list element nonNull, ts)
      | _ => none
  | _ => none

/-- The value that a bare word stands for. -/
def wordValue (w : String) : Value :=
  if w = "true" then .bool true
  else if w = "false" then .bool false
  else if w = "null" then .null
  else .enumName w

/-- Whether a mark other than the given one is ahead, or anything else. -/
def notMarkAhead (c : Char) (ts : List Token) : Bool := !ts.isEmpty && !markAhead c ts

/-- Takes a constant value. The fuel bounds the depth of lists and objects. -/
def value : Nat → Reader Value
  | 0, _ => none
  | fuel + 1, ts =>
      match ts with
      | .int text :: ts => some (.int text, ts)
      | .float text :: ts => some (.float text, ts)
      | .string text :: ts => some (.string text, ts)
      | .name w :: ts => some (wordValue w, ts)
      | .mark '[' :: ts => do
          let (items, ts) ← many (notMarkAhead ']') (value fuel) ts
          let ((), ts) ← mark ']' ts
          return (.list items, ts)
      | .mark '{' :: ts => do
          let entry : Reader (String × Value) := fun ts => do
            let (n, ts) ← name ts
            let ((), ts) ← mark ':' ts
            let (v, ts) ← value fuel ts
            return ((n, v), ts)
          let (entries, ts) ← many nameAhead entry ts
          let ((), ts) ← mark '}' ts
          return (.object entries, ts)
      | _ => none

def argument : Reader Argument := fun ts => do
  let (n, ts) ← name ts
  let ((), ts) ← mark ':' ts
  let (v, ts) ← value ts.length ts
  return (⟨n, v⟩, ts)

def directiveUse : Reader DirectiveUse := fun ts => do
  let ((), ts) ← mark '@' ts
  let (n, ts) ← name ts
  let (arguments, ts) ← enclosedIfAhead '(' ')' nameAhead argument ts
  return (⟨n, arguments⟩, ts)

def directives : Reader (List DirectiveUse) := many (markAhead '@') directiveUse

/-! ## Members of types -/

/-- Takes a default value if one is ahead; a conversion does not depend on it. -/
def defaultValue : Reader Unit := fun ts =>
  if markAhead '=' ts then (value ts.tail.length ts.tail).map fun (_, ts) => ((), ts)
  else some ((), ts)

/-- Takes an argument of a field or a field of an input type. -/
def inputValue : Reader InputValue := fun ts => do
  let (description, ts) := description ts
  let (name, ts) ← name ts
  let ((), ts) ← mark ':' ts
  let (type, ts) ← typeRef ts
  let ((), ts) ← defaultValue ts
  let (directives, ts) ← directives ts
  return ({ name, description, type, directives }, ts)

def argumentsOf : Reader (List InputValue) := enclosedIfAhead '(' ')' memberAhead inputValue

/-- Takes a field of an object or interface type. -/
def field : Reader Field := fun ts => do
  let (description, ts) := description ts
  let (name, ts) ← name ts
  let (arguments, ts) ← argumentsOf ts
  let ((), ts) ← mark ':' ts
  let (type, ts) ← typeRef ts
  let (directives, ts) ← directives ts
  return ({ name, description, arguments, type, directives }, ts)

/-- Takes the value of an enum, which may not be the word of another value. -/
def enumValue : Reader String := fun ts => do
  let (_, ts) := description ts
  let (name, ts) ← name ts
  let (_, ts) ← directives ts
  if name = "true" ∨ name = "false" ∨ name = "null" then none else return (name, ts)

/-- Takes the interfaces that a type implements. -/
def interfaces : Reader (List String) := fun ts =>
  if wordAhead "implements" ts then separatedNames '&' ts.tail else some ([], ts)

def unionMembers : Reader (List String) := fun ts =>
  if markAhead '=' ts then separatedNames '|' ts.tail else some ([], ts)

/-- Takes the fields of an object or interface type. -/
def fields : Reader (List Field) := enclosedIfAhead '{' '}' memberAhead field

/-! ## Type definitions -/

/-- Takes a type behind its description: the keyword of its kind, its name and what belongs to it. -/
def typeDefinition (description : Option String) : Reader TypeDefinition
  | .name "scalar" :: ts => do
      let (name, ts) ← name ts
      let (directives, ts) ← directives ts
      return ({ name, description, directives, body := .scalar }, ts)
  | .name "type" :: ts => do
      let (name, ts) ← name ts
      let (interfaces, ts) ← interfaces ts
      let (directives, ts) ← directives ts
      let (fields, ts) ← fields ts
      return ({ name, description, directives, body := .object interfaces fields }, ts)
  | .name "interface" :: ts => do
      let (name, ts) ← name ts
      let (interfaces, ts) ← interfaces ts
      let (directives, ts) ← directives ts
      let (fields, ts) ← fields ts
      return ({ name, description, directives, body := .interface interfaces fields }, ts)
  | .name "union" :: ts => do
      let (name, ts) ← name ts
      let (directives, ts) ← directives ts
      let (members, ts) ← unionMembers ts
      return ({ name, description, directives, body := .union members }, ts)
  | .name "enum" :: ts => do
      let (name, ts) ← name ts
      let (directives, ts) ← directives ts
      let (values, ts) ← enclosedIfAhead '{' '}' memberAhead enumValue ts
      return ({ name, description, directives, body := .enum values }, ts)
  | .name "input" :: ts => do
      let (name, ts) ← name ts
      let (directives, ts) ← directives ts
      let (fields, ts) ← enclosedIfAhead '{' '}' memberAhead inputValue ts
      return ({ name, description, directives, body := .input fields }, ts)
  | _ => none

/-! ## Schema and directive definitions -/

def operationKind? (w : String) : Option OperationKind :=
  if w = "query" then some .query
  else if w = "mutation" then some .mutation
  else if w = "subscription" then some .subscription
  else none

/-- Takes a root operation. The type may be missing. -/
def rootEntry : Reader RootEntry := fun ts => do
  let (w, ts) ← name ts
  let kind ← operationKind? w
  let ((), ts) ← mark ':' ts
  match ts with
  | .name n :: ts => return (⟨kind, some n⟩, ts)
  | ts => return (⟨kind, none⟩, ts)

/-- Takes the root operations of a schema definition. -/
def roots : Reader (List RootEntry) := enclosed '{' '}' nameAhead rootEntry

/-- The places where a directive can be used. -/
def directiveLocations : List String := [
  "QUERY", "MUTATION", "SUBSCRIPTION", "FIELD", "FRAGMENT_DEFINITION", "FRAGMENT_SPREAD",
  "INLINE_FRAGMENT", "VARIABLE_DEFINITION", "SCHEMA", "SCALAR", "OBJECT", "FIELD_DEFINITION",
  "ARGUMENT_DEFINITION", "INTERFACE", "UNION", "ENUM", "ENUM_VALUE", "INPUT_OBJECT",
  "INPUT_FIELD_DEFINITION"]

/-- Takes a directive definition behind its keyword. -/
def directiveDefinition : Reader Definition := fun ts => do
  let ((), ts) ← mark '@' ts
  let (n, ts) ← name ts
  let (_, ts) ← argumentsOf ts
  let ts := if wordAhead "repeatable" ts then ts.tail else ts
  let ((), ts) ← word "on" ts
  let (locations, ts) ← separatedNames '|' ts
  if locations.all directiveLocations.contains then return (.directive n, ts) else none

/-- Whether an extension of a type adds something to it. -/
def extendsType (extension : TypeDefinition) : Bool :=
  !extension.directives.isEmpty ||
    match extension.body with
    | .scalar => false
    | .object interfaces fields => !interfaces.isEmpty || !fields.isEmpty
    | .interface interfaces fields => !interfaces.isEmpty || !fields.isEmpty
    | .union members => !members.isEmpty
    | .enum values => !values.isEmpty
    | .input fields => !fields.isEmpty

def extension : Reader Definition
  | .name "schema" :: ts => do
      let (directives, ts) ← directives ts
      if markAhead '{' ts then do
        let (entries, ts) ← roots ts
        return (.extendSchema entries, ts)
      else if directives.isEmpty then none
      else return (.extendSchema [], ts)
  | ts => do
      let (extension, ts) ← typeDefinition none ts
      if extendsType extension then return (.extendType extension, ts) else none

def definition : Reader Definition
  | .name "extend" :: ts => extension ts
  | ts => do
      let (description, ts) := description ts
      match ts with
      | .name "schema" :: ts => do
          let (_, ts) ← directives ts
          let (entries, ts) ← roots ts
          return (.schema entries, ts)
      | .name "directive" :: ts => directiveDefinition ts
      | ts => (typeDefinition description ts).map fun (d, ts) => (.type d, ts)

end Reader

/-- The definitions of a source, of which there must be one. -/
def definitions? (tokens : List Token) : Option (List Definition) :=
  if tokens.isEmpty then none
  else match Reader.many (fun ts => !ts.isEmpty) Reader.definition tokens with
    | some (ds, []) => some ds
    | _ => none

/-- The type reference that a text spells. -/
def TypeRef.ofText? (text : String) : Option TypeRef := do
  let lexemes ← lexemes? text.toList
  match Reader.typeRef (lexemes.map Lexeme.token) with
  | some (t, []) => some t
  | _ => none

end GraphRest.Sdl
