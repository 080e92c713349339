/-!
Reading of short texts: white space around them, words in any mix of cases, and decimal integers with
an optional sign and at least one digit.
-/

namespace Assay.Text

def isBlank (c : Char) : Bool :=
  match c.toNat with
  | 0x85 | 0xA0 | 0x1680 | 0x2028 | 0x2029 | 0x202F | 0x205F | 0x3000 => true
  | code => (9 ≤ code && code ≤ 13) || code = 32 || (0x2000 ≤ code && code ≤ 0x200A)

def trimChars (chars : List Char) : List Char :=
  ((chars.dropWhile isBlank).reverse.dropWhile isBlank).reverse

def trim (text : String) : String :=
  String.ofList (trimChars text.toList)

/-- Capital letters and the two characters outside ASCII that differ from an ASCII letter in case only:
the long s and the Kelvin sign. -/
def foldCase (c : Char) : Char :=
  if c.toNat = 0x17F then 's' else if c.toNat = 0x212A then 'k' else c.toLower

def sameWord (word text : String) : Bool :=
  text.toList.map foldCase = word.toList.map foldCase

def digitValue (digit : Char) : Nat := digit.toNat - '0'.toNat

def decimalValue (digits : List Char) : Nat :=
  digits.foldl (fun number digit => number * 10 + digitValue digit) 0

def readNat? (chars : List Char) : Option Nat :=
  if chars.isEmpty || !chars.all Char.isDigit then none else some (decimalValue chars)

def readInt? : List Char → Option Int
  | '-' :: digits => (readNat? digits).map fun number => -(number : Int)
  | '+' :: digits => (readNat? digits).map fun number => (number : Int)
  | digits => (readNat? digits).map fun number => (number : Int)

def fitsInt64 (number : Int) : Bool :=
  Int64.minValue.toInt ≤ number && number ≤ Int64.maxValue.toInt

def readInt64? (text : String) : Option Int :=
  (readInt? text.toList).filter fitsInt64

end Assay.Text
