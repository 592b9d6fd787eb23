import GraphRest.Decimal.Double

/-!
# Data trees

The tree of scalars, lists and fields that a document is before it is written in a text format.
-/

namespace GraphRest

/-- A number of a data tree. -/
inductive Number where
  | whole (n : Nat)
  | double (d : Double)
  deriving DecidableEq

/-- A data tree. Fields keep their order. -/
inductive Tree where
  | null
  | bool (b : Bool)
  | number (n : Number)
  | text (s : String)
  | list (items : List Tree)
  | fields (entries : List (String × Tree))

namespace Tree

def whole (n : Nat) : Tree := number (.whole n)

def texts (ss : List String) : Tree := list (ss.map text)

def field (key : String) (value : Tree) : List (String × Tree) := [(key, value)]

/-- A field for a value that may be absent. -/
def optional {α : Type} (key : String) (encode : α → Tree) : Option α → List (String × Tree)
  | some a => [(key, encode a)]
  | none => []

/-- A field for a flag; one that is not set is left out. -/
def flag (key : String) (b : Bool) : List (String × Tree) :=
  if b then [(key, bool true)] else []

/-- A field for a list; an empty one is left out. -/
def nonEmptyList (key : String) : List Tree → List (String × Tree)
  | [] => []
  | items => [(key, list items)]

/-- A field for a map; an empty one is left out. -/
def nonEmptyFields (key : String) : List (String × Tree) → List (String × Tree)
  | [] => []
  | entries => [(key, fields entries)]

end Tree

end GraphRest
