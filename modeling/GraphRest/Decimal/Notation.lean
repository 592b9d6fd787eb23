import GraphRest.Decimal.Double

/-!
# Decimal notation

The fewest decimal digits that read back as a given double, and how they are laid out: without an exponent
however large or small the double is, or with one beyond common magnitudes.

The doubles around a value leave it an interval of reals that round to it; for one digit after another the
two neighbours of the value on the decimal grid are tried, and the first grid with a neighbour inside the
interval wins.
-/

namespace GraphRest.Decimal

open Double

/-! ## Shortest digits -/

/-- A positive decimal number `0.d₁d₂… * 10 ^ point` in digits from the most significant one. -/
structure Digits where
  digits : List Char
  point : Int
  deriving DecidableEq

/-- The reals that round to a double: between two ratios, with the ends included or not. -/
structure RoundingInterval where
  low : Ratio
  high : Ratio
  closed : Bool

/-- The interval of the reals that round to `mantissa * 2 ^ exponent`. Below a power of two the
neighbour is only half as far away. -/
def RoundingInterval.of (mantissa : Nat) (exponent : Int) : RoundingInterval :=
  { low := if mantissa = Nat.pow 2 52 ∧ minExponent < exponent
      then (Ratio.mk (4 * mantissa - 1) 1).scale 2 (exponent - 2)
      else (Ratio.mk (2 * mantissa - 1) 1).scale 2 (exponent - 1)
    high := (Ratio.mk (2 * mantissa + 1) 1).scale 2 (exponent - 1)
    closed := mantissa % 2 = 0 }

/-- Whether a ratio lies in the interval. -/
def RoundingInterval.holds (i : RoundingInterval) (r : Ratio) : Bool :=
  if i.closed then i.low.le r && r.le i.high else i.low.lt r && r.lt i.high

/-- The number of digits in front of the decimal point of a positive ratio, or minus the number of
zeros behind it: the least `k` with `r < 10 ^ k`. -/
def pointOf (r : Ratio) : Int :=
  let guess : Int := r.log2 * 30103 / 100000
  let below (k : Int) : Bool := r.lt ((Ratio.mk 1 1).scale 10 k)
  if below (guess - 1) then guess - 1
  else if below guess then guess
  else if below (guess + 1) then guess + 1
  else guess + 2

/-- The nearer of the two neighbours of `r` on the grid `10 ^ scale` that lie in the interval; of two
equally near ones the even one. -/
def gridNeighbour? (r : Ratio) (interval : RoundingInterval) (scale : Int) : Option Nat :=
  let scaled := r.scale 10 (-scale)
  let floor := scaled.num / scaled.den
  let inside (n : Nat) : Bool := interval.holds ((Ratio.mk n 1).scale 10 scale)
  let nearest := roundHalfEven scaled.num scaled.den
  if inside nearest then some nearest
  else if inside floor then some floor
  else if inside (floor + 1) then some (floor + 1)
  else none

/-- The first grid, from `n` digits on, that has a neighbour of `r` inside the interval. -/
def firstGrid (r : Ratio) (interval : RoundingInterval) (point : Int) : (fuel n : Nat) → Nat × Int
  | 0, n => (roundHalfEven (r.scale 10 (n - point)).num (r.scale 10 (n - point)).den, point - n)
  | fuel + 1, n =>
      match gridNeighbour? r interval (point - n) with
      | some m => (m, point - n)
      | none => firstGrid r interval point fuel (n + 1)

/-- Drops the zeros at the end of a list of digits, but for a first digit. -/
def dropFinalZeros (ds : List Char) : List Char :=
  (ds.reverse.dropWhile (· = '0')).reverse

/-- The shortest digits of the positive double `mantissa * 2 ^ exponent`. Seventeen always
suffice. -/
def shortest (mantissa : Nat) (exponent : Int) : Digits :=
  let r := (Ratio.mk mantissa 1).scale 2 exponent
  let (n, scale) := firstGrid r (.of mantissa exponent) (pointOf r) 17 1
  let ds := (toString n).toList
  { digits := dropFinalZeros ds, point := ds.length + scale }

/-! ## Positional notation -/

/-- Lays out digits with zeros in front of or behind them and a point only where a fraction follows. -/
def positional (d : Digits) : String :=
  let n : Int := d.digits.length
  let zeros (k : Int) : List Char := List.replicate k.toNat '0'
  if d.point ≤ 0 then String.ofList (['0', '.'] ++ zeros (-d.point) ++ d.digits)
  else if n ≤ d.point then String.ofList (d.digits ++ zeros (d.point - n))
  else String.ofList (d.digits.take d.point.toNat ++ ['.'] ++ d.digits.drop d.point.toNat)

def positionalText : Double → String
  | .finite negative mantissa exponent =>
      (if negative then "-" else "") ++
        if mantissa = 0 then "0" else positional (shortest mantissa exponent)
  | .infinite negative => if negative then "-inf" else "inf"
  | .nan => "NaN"

/-! ## Scientific notation -/

/-- The choices of a text format for numbers in scientific notation. -/
structure Style where
  /-- What stands between `e` and the digits of an exponent that is not negative. -/
  positiveSign : String

def Style.exponent (style : Style) (e : Int) : String :=
  if e < 0 then "e-" ++ toString (-e).toNat else "e" ++ style.positiveSign ++ toString e.toNat

/-- Lays out digits. Numbers from `0.00001` up to below `10 ^ 16` are written with a point and at
least one digit on both sides of it, others with one digit in front of the point and an exponent. -/
def Style.layout (style : Style) (d : Digits) : String :=
  let n := d.digits.length
  let zeros (k : Int) : List Char := List.replicate k.toNat '0'
  if -4 ≤ d.point ∧ d.point ≤ 0 then
    String.ofList (['0', '.'] ++ zeros (-d.point) ++ d.digits)
  else if 0 < d.point ∧ d.point ≤ 16 then
    if (n : Int) ≤ d.point then String.ofList (d.digits ++ zeros (d.point - n) ++ ['.', '0'])
    else
      let k := d.point.toNat
      String.ofList (d.digits.take k ++ ['.'] ++ d.digits.drop k)
  else
    match d.digits with
    | [] => "0"
    | [c] => String.ofList [c] ++ style.exponent (d.point - 1)
    | c :: cs => String.ofList (c :: '.' :: cs) ++ style.exponent (d.point - 1)

/-- The text of a finite double with the given sign. -/
def Style.finite (style : Style) (negative : Bool) (mantissa : Nat) (exponent : Int) : String :=
  let magnitude := if mantissa = 0 then "0.0" else style.layout (shortest mantissa exponent)
  if negative then "-" ++ magnitude else magnitude

end GraphRest.Decimal
