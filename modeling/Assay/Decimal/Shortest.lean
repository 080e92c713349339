/-!
The fewest decimal digits that read back as a given binary floating-point number.

A finite number is `mantissa · 2 ^ exponent`. The reals that round to it form an interval around it,
which contains its ends exactly if the mantissa is even. On each decimal grid only the two neighbours
of the number can be the nearest point in the interval, so they are the only candidates.
-/

namespace Assay.Decimal

/-- The decimal number `0.d₁d₂… · 10 ^ point`, without zeros at either end. No digits mean zero. -/
structure Expansion where
  digits : List Nat
  point : Int
deriving DecidableEq, Repr

inductive Parts
  | nan
  | infinity (negative : Bool)
  | finite (negative : Bool) (mantissa : Nat) (exponent : Int) (atBinade : Bool)
deriving DecidableEq, Repr

/-- `atBinade` marks the least mantissa of a binade, whose lower neighbour is half as far away. -/
def Parts.ofBits (bits : UInt64) : Parts :=
  let negative := bits >>> 63 != 0
  let biased := ((bits >>> 52) &&& 0x7FF).toNat
  let fraction := (bits &&& 0xFFFFFFFFFFFFF).toNat
  if biased = 0x7FF then
    if fraction = 0 then .infinity negative else .nan
  else if biased = 0 then .finite negative fraction (-1074) false
  else .finite negative (fraction + 0x10000000000000) ((biased : Int) - 1075) (fraction = 0 && biased > 1)

/-- A positive number and the interval of reals that round to it, all over one denominator. -/
structure Interval where
  low : Nat
  value : Nat
  high : Nat
  denominator : Nat
  closed : Bool
deriving DecidableEq, Repr

def Interval.of (mantissa : Nat) (exponent : Int) (atBinade : Bool) : Interval :=
  let scale := 1 <<< (exponent - 2).toNat
  { low := (4 * mantissa - (if atBinade then 1 else 2)) * scale
    value := 4 * mantissa * scale
    high := (4 * mantissa + 2) * scale
    denominator := 1 <<< (2 - exponent).toNat
    closed := mantissa % 2 = 0 }

def Interval.holds (interval : Interval) (count : Nat) (unit : Int) : Bool :=
  let point := count * Nat.pow 10 unit.toNat * interval.denominator
  let grid := Nat.pow 10 (-unit).toNat
  if interval.closed then interval.low * grid ≤ point && point ≤ interval.high * grid
  else interval.low * grid < point && point < interval.high * grid

def Interval.magnitude (interval : Interval) : Int :=
  ((Nat.toDigits 10 (interval.value * Nat.pow 10 400 / interval.denominator)).length : Int) - 400

/-- The point of the grid `10 ^ unit` that rounds to the number, if there is one. Of two such points
the nearer one is taken, and the even one if both are equally near. -/
def Interval.candidate? (interval : Interval) (unit : Int) : Option Nat :=
  let numerator := interval.value * Nat.pow 10 (-unit).toNat
  let denominator := interval.denominator * Nat.pow 10 unit.toNat
  let below := numerator / denominator
  let above := below + 1
  match interval.holds below unit, interval.holds above unit with
  | false, false => none
  | true, false => some below
  | false, true => some above
  | true, true =>
    let twice := 2 * (numerator - below * denominator)
    if twice < denominator then some below
    else if denominator < twice then some above
    else if below % 2 = 0 then some below else some above

def digitsOf (number : Nat) : List Nat :=
  (Nat.toDigits 10 number).map (fun c => c.toNat - 48)

/-- Tries grids of more and more digits; seventeen digits always suffice. -/
def Interval.shortestFrom (interval : Interval) (magnitude : Int) : Nat → Nat → Expansion
  | 0, _ => { digits := [], point := 0 }
  | fuel + 1, count =>
    match interval.candidate? (magnitude - count) with
    | none => interval.shortestFrom magnitude fuel (count + 1)
    | some number =>
      let digits := digitsOf number
      { digits := (digits.reverse.dropWhile (· = 0)).reverse
        point := magnitude - count + digits.length }

def shortest (mantissa : Nat) (exponent : Int) (atBinade : Bool) : Expansion :=
  if mantissa = 0 then { digits := [], point := 0 }
  else
    let interval := Interval.of mantissa exponent atBinade
    interval.shortestFrom interval.magnitude 17 1

end Assay.Decimal
