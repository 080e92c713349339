import Assay.Text.Reading

/-!
The meaning of text without quotes: words for null and the truth values, integers in four bases,
decimal fractions; everything else is text.
-/

namespace Assay.Document

inductive Scalar
  | null
  | boolean (value : Bool)
  /-- Integers too large for 64 bits are replaced by the nearest one that fits. -/
  | integer (value : Int)
  | fraction (value : Float)
  | text (value : String)
deriving Repr, Inhabited

def clampInteger (number : Int) : Int :=
  let largest : Int := UInt64.size - 1
  let smallest := Int64.minValue.toInt
  if largest < number then largest
  else if number < smallest then smallest
  else number

def digitOf? (base : Nat) (c : Char) : Option Nat :=
  let value? :=
    if c.isDigit then some (c.toNat - '0'.toNat)
    else if 'a' ≤ c && c ≤ 'f' then some (c.toNat - 'a'.toNat + 10)
    else if 'A' ≤ c && c ≤ 'F' then some (c.toNat - 'A'.toNat + 10)
    else none
  value?.filter (· < base)

/-- The value of digits; zero if there is none or one of them is too large for the base. -/
def valueInBase (base : Nat) (digits : List Char) : Nat :=
  (digits.foldl (fun number digit => do
    return (← number) * base + (← digitOf? base digit)) (some 0)).getD 0

def withoutUnderscores (chars : List Char) : List Char := chars.filter (· ≠ '_')

def isDigitOrUnderscore (c : Char) : Bool := c.isDigit || c = '_'

def isHexOrUnderscore (c : Char) : Bool := (digitOf? 16 c).isSome || c = '_'

def integerDigits? : List Char → Option (Nat × List Char)
  | '0' :: 'x' :: digits => if digits.all isHexOrUnderscore then some (16, digits) else none
  | '0' :: 'o' :: digits => if digits.all isDigitOrUnderscore then some (8, digits) else none
  | '0' :: 'b' :: digits => if digits.all isDigitOrUnderscore then some (2, digits) else none
  | '0' :: digit :: digits =>
    if (digit :: digits).all isDigitOrUnderscore then some (8, digit :: digits) else none
  | digits =>
    if digits.head?.any Char.isDigit && digits.all isDigitOrUnderscore then some (10, digits)
    else none

def unsignedInteger? (chars : List Char) : Option Int :=
  (integerDigits? chars).map fun (base, digits) =>
    (valueInBase base (withoutUnderscores digits) : Int)

/-- Behind a plus sign only decimal digits are read. -/
def plusInteger? (chars : List Char) : Option Int :=
  if chars.head?.any Char.isDigit && chars.all isDigitOrUnderscore then
    some (valueInBase 10 (withoutUnderscores chars) : Int)
  else none

def integer? : List Char → Option Int
  | '-' :: rest => (unsignedInteger? rest).map fun number => clampInteger (-number)
  | '+' :: rest => (plusInteger? rest).map clampInteger
  | rest => (unsignedInteger? rest).map clampInteger

def exponent? : List Char → Option Int
  | [] => some 0
  | mark :: rest => if mark = 'e' || mark = 'E' then Text.readInt? rest else none

def unsignedFraction? (chars : List Char) : Option Float :=
  let whole := chars.takeWhile isDigitOrUnderscore
  let afterWhole := chars.dropWhile isDigitOrUnderscore
  let (places, rest) := match afterWhole with
    | '.' :: tail => (tail.takeWhile isDigitOrUnderscore, tail.dropWhile isDigitOrUnderscore)
    | tail => ([], tail)
  let digits := withoutUnderscores (whole ++ places)
  let shift := (withoutUnderscores places).length
  if digits.isEmpty || whole.head? = some '_' then none
  else
    match exponent? rest with
    | none => none
    | some exponent =>
      let power := exponent - (shift : Int)
      some (if power < 0 then Float.ofScientific (Text.decimalValue digits) true power.natAbs
        else Float.ofScientific (Text.decimalValue digits) false power.natAbs)

def fraction? : List Char → Option Float
  | '-' :: rest => (unsignedFraction? rest).map fun number => -number
  | '+' :: rest => unsignedFraction? rest
  | rest => unsignedFraction? rest

def infinity : Float := 1.0 / 0.0

def notANumber : Float := 0.0 / 0.0

def word? (text : String) : Option Scalar :=
  if ["null", "Null", "NULL", "~"].contains text then some .null
  else if ["true", "True", "TRUE"].contains text then some (.boolean true)
  else if ["false", "False", "FALSE"].contains text then some (.boolean false)
  else if [".inf", ".Inf", ".INF"].contains text then some (.fraction infinity)
  else if ["-.inf", "-.Inf", "-.INF"].contains text then some (.fraction (-infinity))
  else if [".nan", ".NaN", ".NAN"].contains text then some (.fraction notANumber)
  else none

def Scalar.ofPlain (text : String) : Scalar :=
  match word? text with
  | some scalar => scalar
  | none =>
    match integer? text.toList with
    | some number => .integer number
    | none =>
      match fraction? text.toList with
      | some number => .fraction number
      | none => .text text

end Assay.Document
