import Assay.Decimal.Shortest

/-!
How decimal numbers are written: in positional form, or with an exponent when the number is very
small or very large.
-/

namespace Assay.Decimal

/-- When a number is written with an exponent, and how long that exponent is at least. -/
structure Format where
  scientificBelow : Option Int
  scientificFrom : Option Int
  exponentWidth : Nat
deriving DecidableEq, Repr

def Format.plain : Format := { scientificBelow := none, scientificFrom := none, exponentWidth := 2 }

def Format.listing : Format :=
  { scientificBelow := some (-4), scientificFrom := some 6, exponentWidth := 2 }

def Format.report : Format :=
  { scientificBelow := some (-6), scientificFrom := some 21, exponentWidth := 1 }

def Format.setting : Format :=
  { scientificBelow := some (-4), scientificFrom := some 21, exponentWidth := 2 }

def digitText (digits : List Nat) : String :=
  String.ofList (digits.map Nat.digitChar)

def zeros (count : Nat) : String :=
  String.ofList (List.replicate count '0')

def Expansion.positional (decimal : Expansion) : String :=
  if decimal.digits.isEmpty then "0"
  else if decimal.point ≤ 0 then
    "0." ++ zeros (-decimal.point).toNat ++ digitText decimal.digits
  else
    let whole := decimal.point.toNat
    let digits := digitText (decimal.digits.take whole)
    let padded := digits ++ zeros (whole - decimal.digits.length)
    if decimal.digits.length ≤ whole then padded
    else padded ++ "." ++ digitText (decimal.digits.drop whole)

def padLeft (width : Nat) (text : String) : String :=
  zeros (width - text.length) ++ text

def Expansion.scientific (decimal : Expansion) (exponentWidth : Nat) : String :=
  let exponent := decimal.point - 1
  let mantissa := match decimal.digits with
    | [] => "0"
    | [digit] => digitText [digit]
    | digit :: rest => digitText [digit] ++ "." ++ digitText rest
  mantissa ++ (if exponent < 0 then "e-" else "e+") ++
    padLeft exponentWidth (toString exponent.natAbs)

def Format.write (format : Format) (decimal : Expansion) : String :=
  let exponent := decimal.point - 1
  let small := match format.scientificBelow with
    | some bound => exponent < bound
    | none => false
  let large := match format.scientificFrom with
    | some bound => bound ≤ exponent
    | none => false
  if !decimal.digits.isEmpty && (small || large) then decimal.scientific format.exponentWidth
  else decimal.positional

def Format.float (format : Format) (number : Float) : String :=
  match Parts.ofBits number.toBits with
  | .nan => "NaN"
  | .infinity negative => if negative then "-Inf" else "+Inf"
  | .finite negative mantissa exponent atBinade =>
    (if negative then "-" else "") ++ format.write (shortest mantissa exponent atBinade)

end Assay.Decimal
