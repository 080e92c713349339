/-!
Bytes and numbers written with the characters of an alphabet. Three bytes make four characters, and the
end is filled up. Identifiers of runs have 26 characters that sort by time: they hold a time in 48 bits
and noise in 80 bits, five bits per character.
-/

namespace Assay.Text

def base64Alphabet : List Char :=
  "ABCDEFGHIJKLMNOPQRSTUVWXYZabcdefghijklmnopqrstuvwxyz0123456789+/".toList

def sextetChar (number : Nat) : Char := base64Alphabet.getD (number % 64) 'A'

def base64Chars : List UInt8 → List Char
  | [] => []
  | [a] =>
    let bits := a.toNat * 65536
    [sextetChar (bits / 262144), sextetChar (bits / 4096), '=', '=']
  | [a, b] =>
    let bits := a.toNat * 65536 + b.toNat * 256
    [sextetChar (bits / 262144), sextetChar (bits / 4096), sextetChar (bits / 64), '=']
  | a :: b :: c :: rest =>
    let bits := a.toNat * 65536 + b.toNat * 256 + c.toNat
    sextetChar (bits / 262144) :: sextetChar (bits / 4096) :: sextetChar (bits / 64) ::
      sextetChar bits :: base64Chars rest

def base64 (bytes : Array UInt8) : String := String.ofList (base64Chars bytes.toList)

def base32Alphabet : List Char := "0123456789ABCDEFGHJKMNPQRSTVWXYZ".toList

def base32Digits : Nat → Nat → List Char
  | 0, _ => []
  | width + 1, number => base32Digits width (number / 32) ++ [base32Alphabet.getD (number % 32) '0']

def runId (milliseconds noise : Nat) : String :=
  String.ofList (base32Digits 26 ((milliseconds % (1 <<< 48)) * (1 <<< 80) + noise % (1 <<< 80)))

end Assay.Text
