import Assay.Text.Reading

/-!
Durations such as `1h2m3.5s`: an optional sign, then numbers with units, added up to nanoseconds.
-/

namespace Assay.Settings

def unitNanos? (unit : String) : Option Nat :=
  [("ns", 1), ("us", 1000), ("\u00b5s", 1000), ("\u03bcs", 1000), ("ms", 1000000),
    ("s", 1000000000), ("m", 60000000000), ("h", 3600000000000)].lookup unit

def durationBound : Nat := 1 <<< 63

structure DecimalPlaces where
  number : Nat
  scale : Float

def decimalPlaces : List Char → DecimalPlaces
  | digits =>
    let step := fun (state : DecimalPlaces × Bool) (digit : Char) =>
      let (places, full) := state
      if full then (places, true)
      else if (durationBound - 1) / 10 < places.number then (places, true)
      else
        let number := places.number * 10 + Text.digitValue digit
        if durationBound < number then (places, true)
        else ({ number, scale := places.scale * 10 }, false)
    (digits.foldl step ({ number := 0, scale := 1 }, false)).1

/-- A number with a unit, in nanoseconds. The part behind the point is scaled in floating point. -/
def partNanos? (whole places : List Char) (unit : Nat) : Option Nat :=
  let units := Text.decimalValue whole
  let fraction := decimalPlaces places
  if durationBound < units || durationBound / unit < units then none
  else
    let extra :=
      if fraction.number = 0 then 0
      else (fraction.number.toFloat * (unit.toFloat / fraction.scale)).toUInt64.toNat
    let nanos := units * unit + extra
    if durationBound < nanos then none else some nanos

def isUnitChar (c : Char) : Bool := !(c = '.' || c.isDigit)

def sumParts? : Nat → List Char → Nat → Option Nat
  | _, [], total => some total
  | 0, _, _ => none
  | fuel + 1, chars, total =>
    let whole := chars.takeWhile Char.isDigit
    let (places, rest) := match chars.dropWhile Char.isDigit with
      | '.' :: tail => (tail.takeWhile Char.isDigit, tail.dropWhile Char.isDigit)
      | tail => ([], tail)
    if whole.isEmpty && places.isEmpty then none
    else
      match unitNanos? (String.ofList (rest.takeWhile isUnitChar)) with
      | none => none
      | some unit =>
        match partNanos? whole places unit with
        | none => none
        | some nanos =>
          if durationBound < total + nanos then none
          else sumParts? fuel (rest.dropWhile isUnitChar) (total + nanos)

def unsignedNanos? (chars : List Char) : Option Nat :=
  if chars = ['0'] then some 0
  else if chars.isEmpty then none
  else sumParts? chars.length chars 0

def readDuration? (text : String) : Option Int :=
  match text.toList with
  | '-' :: rest => (unsignedNanos? rest).map fun nanos => -(nanos : Int)
  | '+' :: rest => ((unsignedNanos? rest).filter (· < durationBound)).map fun nanos => (nanos : Int)
  | rest => ((unsignedNanos? rest).filter (· < durationBound)).map fun nanos => (nanos : Int)

end Assay.Settings
