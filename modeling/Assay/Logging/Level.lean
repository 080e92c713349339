import Assay.Text.Reading

/-!
Levels of log messages. A level is a small number, and most have a name.
-/

namespace Assay.Logging

/-- Messages below the level of a logger are left out. -/
structure Level where
  rank : Int
deriving DecidableEq, Repr, Inhabited

namespace Level

def trace : Level := ⟨-1⟩

def debug : Level := ⟨0⟩

def info : Level := ⟨1⟩

def warn : Level := ⟨2⟩

def error : Level := ⟨3⟩

def fatal : Level := ⟨4⟩

def panic : Level := ⟨5⟩

def unlabelled : Level := ⟨6⟩

def disabled : Level := ⟨7⟩

def names : List (Level × String) :=
  [(trace, "trace"), (debug, "debug"), (info, "info"), (warn, "warn"), (error, "error"),
    (fatal, "fatal"), (panic, "panic"), (disabled, "disabled"), (unlabelled, "")]

def text (level : Level) : String :=
  (names.lookup level).getD (toString level.rank)

end Level

inductive LevelError
  | unknown (text : String)
  | outOfBounds (rank : Int)
deriving DecidableEq, Repr

def LevelError.message : LevelError → String
  | unknown text => "Unknown Level String: '" ++ text ++ "', defaulting to NoLevel"
  | outOfBounds rank => "Out-Of-Bounds Level: '" ++ toString rank ++ "', defaulting to NoLevel"

/-- Reads a level: a name in any case, or a number of eight bits. -/
def Level.read (text : String) : Except LevelError Level :=
  match Level.names.find? fun (_, name) => Text.sameWord name text with
  | some (level, _) => .ok level
  | none =>
    match Text.readInt64? text with
    | none => .error (.unknown text)
    | some rank => if rank < -128 || 127 < rank then .error (.outOfBounds rank) else .ok ⟨rank⟩

def Level.ofSetting (text : String) : Except LevelError Level :=
  if Text.trim text = "" then .ok .disabled else Level.read text

/-- The least detailed level that is ever written is `trace`. -/
def Level.allows (limit message : Level) : Bool :=
  limit ≠ .disabled && limit.rank ≤ message.rank && Level.trace.rank ≤ message.rank

end Assay.Logging
