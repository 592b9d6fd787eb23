/-!
# Double-precision numbers

The values of a 64-bit binary floating-point number, rounding of a ratio to the nearest of them, and reading
numbers in decimal notation. All arithmetic is exact on natural numbers.
-/

namespace GraphRest

/-- A double-precision value. A finite one is `mantissa * 2 ^ exponent` with its sign, so that the two
zeros differ. -/
inductive Double where
  | finite (negative : Bool) (mantissa : Nat) (exponent : Int)
  | infinite (negative : Bool)
  | nan
  deriving DecidableEq

namespace Double

/-- The exponent of the smallest positive double. -/
def minExponent : Int := -1074

/-- The largest exponent of a finite double. -/
def maxExponent : Int := 971

/-- The quotient rounded to the nearest natural number, a half to the even one. -/
def roundHalfEven (num den : Nat) : Nat :=
  let q := num / den
  let twice := 2 * (num % den)
  if den < twice ∨ (den = twice ∧ q % 2 = 1) then q + 1 else q

/-- A positive ratio of natural numbers. -/
structure Ratio where
  num : Nat
  den : Nat

/-- A ratio times a power of a base. -/
def Ratio.scale (r : Ratio) (base : Nat) (exponent : Int) : Ratio :=
  if 0 ≤ exponent then ⟨r.num * base.pow exponent.toNat, r.den⟩
  else ⟨r.num, r.den * base.pow (-exponent).toNat⟩

/-- Whether a ratio is at most another. -/
def Ratio.le (r s : Ratio) : Bool := r.num * s.den ≤ s.num * r.den

/-- Whether a ratio is less than another. -/
def Ratio.lt (r s : Ratio) : Bool := r.num * s.den < s.num * r.den

/-- The exponent of the largest power of two that is at most the ratio. -/
def Ratio.log2 (r : Ratio) : Int :=
  let e : Int := (Nat.log2 r.num : Int) - Nat.log2 r.den
  if (Ratio.mk 1 1).le (r.scale 2 (-e)) then e else e - 1

/-- The double nearest to a ratio, of two equally near ones the one with the even mantissa. Ratios
beyond the largest finite double give infinity. -/
def ofRatio (negative : Bool) (r : Ratio) : Double :=
  if r.num = 0 then finite negative 0 minExponent
  else
    let exponent := max (r.log2 - 52) minExponent
    let scaled := r.scale 2 (-exponent)
    let mantissa := roundHalfEven scaled.num scaled.den
    let (mantissa, exponent) :=
      if mantissa = Nat.pow 2 53 then (Nat.pow 2 52, exponent + 1) else (mantissa, exponent)
    if exponent ≤ maxExponent then finite negative mantissa exponent else infinite negative

/-- The double nearest to `digits * 10 ^ exponent`. Exponents far outside the range of doubles are cut
short before any power is formed. -/
def ofDecimal (negative : Bool) (digits : Nat) (exponent : Int) : Double :=
  let magnitude : Int := (Nat.log2 digits : Int) / 3 + exponent
  if digits = 0 ∨ magnitude < -800 then finite negative 0 minExponent
  else if 1200 < (Nat.log2 digits : Int) / 4 + exponent then infinite negative
  else ofRatio negative ((Ratio.mk digits 1).scale 10 exponent)

/-- Whether the value is neither infinite nor not a number. -/
def isFinite : Double → Bool
  | finite .. => true
  | _ => false

end Double

/-! ## Reading numbers -/

namespace Decimal

/-- The value of a list of decimal digits. -/
def digitsValue (ds : List Char) : Nat :=
  ds.foldl (fun n d => 10 * n + (d.toNat - '0'.toNat)) 0

/-- A non-empty list of decimal digits read as a number. -/
def digits? (ds : List Char) : Option Nat :=
  if ds.isEmpty || !ds.all Char.isDigit then none else some (digitsValue ds)

/-- Takes the digits at the head of a text. -/
def spanDigits (s : List Char) : List Char × List Char := s.span Char.isDigit

/-- A whole number below a limit: decimal digits, with an optional plus sign. -/
def whole? (limit : Nat) (s : String) : Option Nat :=
  let ds := match s.toList with
    | '+' :: ds => ds
    | ds => ds
  (digits? ds).filter (· < limit)

/-- Takes a sign off the head of a text; true stands for a minus sign. -/
def takeSign : List Char → Bool × List Char
  | '-' :: s => (true, s)
  | '+' :: s => (false, s)
  | s => (false, s)

/-- An exponent in decimal notation: empty, or `e` with a signed number. -/
def exponent? : List Char → Option Int
  | [] => some 0
  | c :: s =>
      if c = 'e' ∨ c = 'E' then
        let (negative, ds) := takeSign s
        (digits? ds).map fun n => if negative then -(n : Int) else n
      else none

/-- An unsigned decimal number: digits with an optional point, at least one digit in all, and an
optional exponent. -/
def unsigned? (negative : Bool) (s : List Char) : Option Double :=
  let (whole, s) := spanDigits s
  let (fraction, s) := match s with
    | '.' :: s => spanDigits s
    | s => ([], s)
  if whole.isEmpty && fraction.isEmpty then none
  else (exponent? s).map fun e =>
    .ofDecimal negative (digitsValue (whole ++ fraction)) (e - fraction.length)

/-- A double-precision number in decimal notation, or one of the words `inf`, `infinity` and `nan` in
any case, each with an optional sign. -/
def double? (s : String) : Option Double :=
  let (negative, cs) := takeSign s.toList
  let word := String.ofList (cs.map Char.toLower)
  if word = "inf" ∨ word = "infinity" then some (.infinite negative)
  else if word = "nan" then some .nan
  else unsigned? negative cs

end Decimal

end GraphRest
