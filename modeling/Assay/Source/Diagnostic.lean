import Assay.Source.Position
import Assay.Text.Reading

/-!
Errors found in a source. Each is shown as one line that ends with its location.
-/

namespace Assay

structure Diagnostic where
  position : Position
  message : String
deriving DecidableEq, Repr, Inhabited

namespace Diagnostic

def separator : String := " -> "

def format (position : Position) (message : String) : String :=
  message ++ separator ++ position.text

def line (diagnostic : Diagnostic) : String :=
  format diagnostic.position diagnostic.message

/-- What follows the last occurrence of `mark`, if there is one. -/
def afterLast (mark : List Char) : List Char → Option (List Char)
  | [] => if mark.isEmpty then some [] else none
  | c :: rest =>
    match afterLast mark rest with
    | some tail => some tail
    | none => if mark.isPrefixOf (c :: rest) then some ((c :: rest).drop mark.length) else none

/-- The location part of a diagnostic line; the whole line if it has none. -/
def location (line : String) : String :=
  let chars := line.toList
  String.ofList (Text.trimChars ((afterLast separator.toList chars).getD chars))

def combine (texts : List (Option String)) : Option String :=
  match texts.filterMap id with
  | [] => none
  | present => some ("\n".intercalate present)

def report (diagnostics : List Diagnostic) : Option String :=
  combine (diagnostics.map (fun diagnostic => some diagnostic.line))

end Diagnostic

end Assay
