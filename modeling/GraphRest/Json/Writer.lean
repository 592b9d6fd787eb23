import GraphRest.Decimal.Notation
import GraphRest.Tree

/-!
# Writing JSON

Data trees as JSON text, either compact or on indented lines.
-/

namespace GraphRest.Json

/-- JSON writes a plus sign in front of exponents that are not negative. -/
def numberStyle : Decimal.Style := ⟨"+"⟩

def hexDigit (n : Nat) : Char := Nat.digitChar n

/-- The escape of a character inside quotes, if it needs one. -/
def escape? (c : Char) : Option (List Char) :=
  if c = '"' then some ['\\', '"']
  else if c = '\\' then some ['\\', '\\']
  else if c = '\n' then some ['\\', 'n']
  else if c = '\r' then some ['\\', 'r']
  else if c = '\t' then some ['\\', 't']
  else if c.toNat = 8 then some ['\\', 'b']
  else if c.toNat = 12 then some ['\\', 'f']
  else if c.toNat < 32 then
    some ['\\', 'u', '0', '0', hexDigit (c.toNat / 16), hexDigit (c.toNat % 16)]
  else none

/-- A character as it stands inside quotes. -/
def escape (c : Char) : List Char := (escape? c).getD [c]

def quote (s : String) : List Char := '"' :: s.toList.flatMap escape ++ ['"']

/-- A number; what is not finite has no JSON number and is written as `null`. -/
def number : Number → List Char
  | .whole n => (toString n).toList
  | .double (.finite negative m e) => (numberStyle.finite negative m e).toList
  | .double _ => ['n', 'u', 'l', 'l']

def bool (b : Bool) : List Char := if b then "true".toList else "false".toList

mutual

def compact : Tree → List Char
  | .null => ['n', 'u', 'l', 'l']
  | .bool b => bool b
  | .number n => number n
  | .text s => quote s
  | .list items => '[' :: compactItems items ++ [']']
  | .fields entries => '{' :: compactFields entries ++ ['}']

def compactItems : List Tree → List Char
  | [] => []
  | [t] => compact t
  | t :: ts => compact t ++ ',' :: compactItems ts

def compactFields : List (String × Tree) → List Char
  | [] => []
  | [(k, t)] => quote k ++ ':' :: compact t
  | (k, t) :: ts => quote k ++ ':' :: compact t ++ ',' :: compactFields ts

end

/-- A line break and the indentation of a depth, two blanks a level. -/
def newline (depth : Nat) : List Char := '\n' :: List.replicate (2 * depth) ' '

mutual

/-- A data tree at a depth, each item and field on a line of its own. -/
def pretty (depth : Nat) : Tree → List Char
  | .null => ['n', 'u', 'l', 'l']
  | .bool b => bool b
  | .number n => number n
  | .text s => quote s
  | .list [] => ['[', ']']
  | .list (t :: ts) =>
      '[' :: newline (depth + 1) ++ pretty (depth + 1) t ++ prettyItems (depth + 1) ts ++
        newline depth ++ [']']
  | .fields [] => ['{', '}']
  | .fields ((k, t) :: ts) =>
      '{' :: newline (depth + 1) ++ quote k ++ ':' :: ' ' :: pretty (depth + 1) t ++
        prettyFields (depth + 1) ts ++ newline depth ++ ['}']

/-- Further list items, each behind a comma. -/
def prettyItems (depth : Nat) : List Tree → List Char
  | [] => []
  | t :: ts => ',' :: newline depth ++ pretty depth t ++ prettyItems depth ts

def prettyFields (depth : Nat) : List (String × Tree) → List Char
  | [] => []
  | (k, t) :: ts =>
      ',' :: newline depth ++ quote k ++ ':' :: ' ' :: pretty depth t ++ prettyFields depth ts

end

/-- The compact text of a data tree. -/
def compactText (t : Tree) : String := String.ofList (compact t)

/-- The text of a data tree on indented lines. -/
def prettyText (t : Tree) : String := String.ofList (pretty 0 t)

end GraphRest.Json
