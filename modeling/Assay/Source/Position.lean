/-!
Places in a named source, usually a file.
-/

namespace Assay

/-- A line and a column, both counted from one, in a named source. A position whose line is not
positive is unknown. -/
structure Position where
  source : String
  line : Int32
  column : Int32
deriving DecidableEq, Repr, Inhabited

namespace Position

def unknown : Position := { source := "", line := 0, column := 0 }

/-- Lines and columns keep their low 32 bits. -/
def make (source : String) (line column : Int) : Position :=
  { source, line := Int32.ofInt line, column := Int32.ofInt column }

def isKnown (position : Position) : Bool :=
  0 < position.line.toInt

def sourceText (position : Position) : String :=
  if position.source = "" then "??" else position.source

def text (position : Position) : String :=
  if position.isKnown then
    position.sourceText ++ ":" ++ toString position.line.toInt ++ ":" ++
      toString position.column.toInt
  else position.sourceText

end Position

end Assay
