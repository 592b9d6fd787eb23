import GraphRest.Data.SortedMap
import GraphRest.Decimal.Double

/-!
# Data

A value as it is given to a program from outside: read from a file or from the environment. The fields
of a record stand in byte order of their names, each name once.
-/

namespace GraphRest

/-- A value given from outside. -/
inductive Datum where
  | null
  | bool (b : Bool)
  | whole (n : Nat)
  /-- A number with a minus sign. -/
  | negative (n : Nat)
  | float (d : Double)
  | char (c : Char)
  | text (s : String)
  | list (items : List Datum)
  | fields (entries : List (String × Datum))

namespace Datum

/-- The record of entries; the last of several with one name remains. -/
def ofEntries (entries : List (String × Datum)) : Datum :=
  .fields (SortedMap.ofList entries).entries

/-- The value of a field of a record. -/
def field? (name : String) : Datum → Option Datum
  | .fields entries => entries.lookup name
  | _ => none

/-- The value that a path of field names and positions leads to. -/
def at? : List String → Datum → Option Datum
  | [], d => some d
  | name :: path, .fields entries => (entries.lookup name).bind (at? path)
  | name :: path, .list items =>
      (name.toNat?.bind fun n => items[n]?).bind (at? path)
  | _ :: _, _ => none

/-! ## Layers -/

mutual

/-- Lays a value over another: records are joined field by field, and anything else hides what lies
below. -/
def laidOver : Datum → Datum → Datum
  | .fields upper, .fields lower =>
      ofEntries (lower ++ overEntries upper lower)
  | upper, _ => upper

/-- The fields of the upper record, each laid over the field of its name below. -/
def overEntries : List (String × Datum) → List (String × Datum) → List (String × Datum)
  | [], _ => []
  | (name, d) :: upper, lower =>
      (name, match lower.lookup name with
        | some d' => laidOver d d'
        | none => d) :: overEntries upper lower

end

end Datum

end GraphRest
