import Assay.Text.Printable

/-!
Text between double quotes with every character that does not print written as an escape.
-/

namespace Assay.Text

def hexDigits : Nat → Nat → List Char
  | 0, _ => []
  | width + 1, number => hexDigits width (number / 16) ++ [Nat.digitChar (number % 16)]

def hex (width number : Nat) : String :=
  String.ofList (hexDigits width number)

/-- One character inside quotes: the short escapes, `\x` for other ASCII control characters, `\u` and
`\U` for what does not print, everything else as it is. -/
def quoteChar (c : Char) : String :=
  match c.toNat with
  | 7 => "\\a"
  | 8 => "\\b"
  | 9 => "\\t"
  | 10 => "\\n"
  | 11 => "\\v"
  | 12 => "\\f"
  | 13 => "\\r"
  | 34 => "\\\""
  | 92 => "\\\\"
  | code =>
    if isPrintable c then String.singleton c
    else if code < 0x80 then "\\x" ++ hex 2 code
    else if code < 0x10000 then "\\u" ++ hex 4 code
    else "\\U" ++ hex 8 code

def quote (text : String) : String :=
  "\"" ++ String.join (text.toList.map quoteChar) ++ "\""

end Assay.Text
