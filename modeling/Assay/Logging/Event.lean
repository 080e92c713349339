import Assay.Logging.Level
import Assay.Text.Quoted

/-!
Log messages with named values, and how they are written: one line with the time, the level, the
message and the values in the order of their names.
-/

namespace Assay.Logging

inductive FieldValue
  | text (value : String)
  | number (value : Int)
deriving DecidableEq, Repr

structure Event where
  level : Level
  message : String
  fields : List (String × FieldValue)
deriving DecidableEq, Repr

namespace Event

def debug (message : String) (fields : List (String × FieldValue)) : Event :=
  { level := .debug, message, fields }

def fromSource (source : String) (event : Event) : Event :=
  { event with fields := event.fields ++ [("src", .text source)] }

end Event

def needsQuotes (text : String) : Bool :=
  text.toList.any fun c => c.toNat ≤ 0x20 || 0x7E < c.toNat || c = '\\' || c = '"'

def FieldValue.written : FieldValue → String
  | text value => if needsQuotes value then Text.quote value else value
  | number value => toString value

def styled (colour : Bool) (code : Nat) (text : String) : String :=
  if colour && code ≠ 0 then "\x1b[" ++ toString code ++ "m" ++ text ++ "\x1b[0m" else text

structure LevelMark where
  mark : String
  style : Nat

def Level.mark (level : Level) : LevelMark :=
  if level = .trace then ⟨"TRC", 34⟩
  else if level = .debug then ⟨"DBG", 0⟩
  else if level = .info then ⟨"INF", 32⟩
  else if level = .warn then ⟨"WRN", 33⟩
  else if level = .error then ⟨"ERR", 31⟩
  else if level = .fatal then ⟨"FTL", 31⟩
  else if level = .panic then ⟨"PNC", 31⟩
  else ⟨"???", 1⟩

def Level.messageStyle (level : Level) : Nat :=
  if Level.info.rank ≤ level.rank && level.rank ≤ Level.panic.rank then 1 else 0

/-- The line of a message, with the line break. An empty message takes no place. -/
def Event.line (event : Event) (time : String) (colour : Bool) : String :=
  let mark := event.level.mark
  let message :=
    if event.message = "" then [] else [styled colour event.level.messageStyle event.message]
  let sorted := event.fields.mergeSort fun left right => left.1 ≤ right.1
  let fields := sorted.map fun (name, value) => styled colour 36 (name ++ "=") ++ value.written
  " ".intercalate ([styled colour 90 time, styled colour mark.style mark.mark] ++ message ++ fields)
    ++ "\n"

end Assay.Logging
