/-
Module: AbcBuild.Number.Shortest
Purpose: The text of a double: the fewest decimal digits that no other double is nearer to, written without
  an exponent.
Main exports: Decimal, Decimal.shortest, Decimal.text, Double.text
-/
import AbcBuild.Number.Double

namespace AbcBuild

/-- The number `digits * 10 ^ power`. -/
structure Decimal where
  digits : Nat
  power : Int
deriving Repr, DecidableEq, Inhabited

namespace Decimal

/-- A positive rational number. -/
structure Ratio where
  num : Nat
  den : Nat
deriving Repr, DecidableEq

namespace Ratio

/-- `n * 2 ^ e`. -/
def scaled (n : Nat) (e : Int) : Ratio :=
  if 0 ≤ e then ⟨n * Nat.pow 2 e.toNat, 1⟩ else ⟨n, Nat.pow 2 (-e).toNat⟩

/-- The greatest whole number of units `10 ^ power` in the ratio. -/
def floorUnits (r : Ratio) (power : Int) : Nat :=
  if 0 ≤ power then r.num / (r.den * Nat.pow 10 power.toNat) else r.num * Nat.pow 10 (-power).toNat / r.den

/-- `count * 10 ^ power`. -/
def units (count : Nat) (power : Int) : Ratio :=
  if 0 ≤ power then ⟨count * Nat.pow 10 power.toNat, 1⟩ else ⟨count, Nat.pow 10 (-power).toNat⟩

def lt (a b : Ratio) : Bool := a.num * b.den < b.num * a.den

def le (a b : Ratio) : Bool := a.num * b.den ≤ b.num * a.den

end Ratio

/-- The numbers that round to one double: all between `low` and `high`, the ends included if `closed`. -/
structure Interval where
  low : Ratio
  high : Ratio
  closed : Bool
deriving Repr

def Interval.holds (i : Interval) (r : Ratio) : Bool :=
  if i.closed then i.low.le r && r.le i.high else i.low.lt r && r.lt i.high

/-- What rounds to `mantissa * 2 ^ exponent`.  Below a power of two the doubles stand twice as dense, so the
    lower end is half as far away there. -/
def Interval.around (mantissa : Nat) (exponent : Int) : Interval :=
  let below := if mantissa = Double.leadingBit then Ratio.scaled (4 * mantissa - 1) (exponent - 2)
    else Ratio.scaled (2 * mantissa - 1) (exponent - 1)
  { low := below
    high := Ratio.scaled (2 * mantissa + 1) (exponent - 1)
    closed := mantissa % 2 = 0 }

/-- The least `k` with `value < 10 ^ k`.  Every positive double is above `10 ^ -400`, so the count of the
    digits of its multiple by `10 ^ 400` tells. -/
def magnitude (value : Ratio) : Int :=
  ((Nat.toDigits 10 (value.num * Nat.pow 10 400 / value.den)).length : Int) - 400

/-- The multiple of `10 ^ power` next to `value` that lies in the interval.  Of two such the nearer is taken,
    the upper one if both are equally near. -/
def neighbour? (value : Ratio) (around : Interval) (power : Int) : Option Decimal :=
  let below := value.floorUnits power
  let down := around.holds (Ratio.units below power)
  let up := around.holds (Ratio.units (below + 1) power)
  let half := Ratio.units (10 * below + 5) (power - 1)
  if up && (!down || half.le value) then some ⟨below + 1, power⟩
  else if down then some ⟨below, power⟩
  else none

/-- The shortest decimal for `mantissa * 2 ^ exponent`: of the grids with one, two, up to seventeen digits
    the first that has a point in the interval. -/
def shortest (mantissa : Nat) (exponent : Int) : Decimal :=
  let value := Ratio.scaled mantissa exponent
  let around := Interval.around mantissa exponent
  let top := magnitude value
  let found := (List.range 17).findSome? fun (n : Nat) => neighbour? value around (top - (n : Int) - 1)
  found.getD ⟨value.floorUnits (top - 17), top - 17⟩

/-- Without the zeros at the end of the digits; `steps` bounds their number. -/
def trimZeros : Nat → Decimal → Decimal
  | 0, d => d
  | steps + 1, d =>
    if d.digits % 10 = 0 && d.digits ≠ 0 then trimZeros steps ⟨d.digits / 10, d.power + 1⟩ else d

/-- All digits, with a point where one is needed and never an exponent. -/
def text (d : Decimal) : String :=
  let d := trimZeros 20 d
  let digits := Nat.toDigits 10 d.digits
  if 0 ≤ d.power then String.ofList (digits ++ List.replicate d.power.toNat '0')
  else
    let places := (-d.power).toNat
    if places < digits.length then
      String.ofList (digits.take (digits.length - places) ++ '.' :: digits.drop (digits.length - places))
    else String.ofList ('0' :: '.' :: List.replicate (places - digits.length) '0' ++ digits)

end Decimal

/-- The text of a double: `NaN`, `inf` or the shortest decimal, after a minus where the sign bit asks for
    it. -/
def Double.text (d : Double) : String :=
  if d.isNaN then "NaN"
  else
    let size :=
      if d.isInfinite then "inf"
      else if d.isZero then "0"
      else (Decimal.shortest d.mantissa d.exponent).text
    if d.negative then "-" ++ size else size

end AbcBuild
