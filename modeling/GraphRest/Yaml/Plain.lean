import GraphRest.Decimal.Double
import GraphRest.Text.Basic

/-!
# Plain scalars

What a YAML scalar without quotes stands for: nothing, a truth value, a number or text.
-/

namespace GraphRest.Yaml

/-- The value of a scalar without quotes. -/
inductive Plain where
  | null
  | bool (b : Bool)
  | whole (n : Nat)
  | negative (n : Nat)
  | float (d : Double)
  | text
  deriving DecidableEq

namespace Plain

/-- The digits of a number in a base up to sixteen, or `none` if one does not belong to the base. -/
def radix? (base : Nat) (ds : List Char) : Option Nat :=
  let digit? (c : Char) : Option Nat :=
    let n := if c.isDigit then c.toNat - '0'.toNat
      else if 'a' ≤ c ∧ c ≤ 'f' then c.toNat - 'a'.toNat + 10
      else if 'A' ≤ c ∧ c ≤ 'F' then c.toNat - 'A'.toNat + 10
      else 16
    if n < base then some n else none
  if ds.isEmpty then none
  else ds.foldl (fun n c => do return (← n) * base + (← digit? c)) (some 0)

/-- Digits that begin with a zero, of which there are several, are text. -/
def zeroPadded (s : List Char) : Bool :=
  let ds := match s with
    | '-' :: ds => ds
    | '+' :: ds => ds
    | ds => ds
  match ds with
  | '0' :: d :: ds => (d :: ds).all Char.isDigit
  | _ => false

/-- A number without sign: decimal digits, or `0x`, `0o` and `0b` with digits of their bases. -/
def magnitude? : List Char → Option Nat
  | '0' :: 'x' :: ds => radix? 16 ds
  | '0' :: 'o' :: ds => radix? 8 ds
  | '0' :: 'b' :: ds => radix? 2 ds
  | ds => radix? 10 ds

/-- An integer of at most 128 bits, with an optional sign. -/
def integer? (s : List Char) : Option Plain :=
  if zeroPadded s then none
  else match s with
    | '-' :: ds => ((magnitude? ds).filter (· ≤ Nat.pow 2 127)).map negative
    | '+' :: ds => ((magnitude? ds).filter (· < Nat.pow 2 128)).map whole
    | ds => ((magnitude? ds).filter (· < Nat.pow 2 128)).map whole

/-- A floating-point number: `.inf` and `.nan` in three spellings, or a finite decimal number. -/
def float? (s : String) : Option Double :=
  let unsigned := (Text.after? "+" s).getD s
  if [".inf", ".Inf", ".INF"].contains unsigned then some (.infinite false)
  else if ["-.inf", "-.Inf", "-.INF"].contains s then some (.infinite true)
  else if [".nan", ".NaN", ".NAN"].contains s then some .nan
  else if zeroPadded s.toList then none
  else if unsigned ≠ s ∧ (Text.beginsWith unsigned "+" ∨ Text.beginsWith unsigned "-") then none
  else (Decimal.double? unsigned).filter Double.isFinite

def of (s : String) : Plain :=
  if ["", "~", "null", "Null", "NULL"].contains s then null
  else if ["true", "True", "TRUE"].contains s then bool true
  else if ["false", "False", "FALSE"].contains s then bool false
  else match integer? s.toList with
    | some i => i
    | none =>
        match float? s with
        | some d => float d
        | none => text

/-- Whether a text would be read as something else without quotes. -/
def needsQuotes (s : String) : Bool := of s ≠ text || zeroPadded s.toList

end Plain

end GraphRest.Yaml
