import Assay.Logging.Event
import Assay.Machine.Run
import Assay.Settings.Settings

/-!
What the commands need from the system they run on. The commands are written for any host, so that they
can be run in a terminal as well as be observed.
-/

namespace Assay.CommandLine

open Logging (Event Level)

inductive FileError
  | missing
  | notADirectory
  | isADirectory
  | other (reason : String)
deriving DecidableEq, Repr

def FileError.message (path : String) : FileError → String
  | missing => "open " ++ path ++ ": no such file or directory"
  | notADirectory => "open " ++ path ++ ": not a directory"
  | isADirectory => "read " ++ path ++ ": is a directory"
  | other reason => "open " ++ path ++ ": " ++ reason

structure Execution where
  outcome : Machine.Outcome
  output : String

structure Host (m : Type → Type) where
  cancelled : Bool
  readFile : String → m (Except FileError String)
  /-- The path and the text of the settings file, if there is one. -/
  settingsFile : m (Option (String × String))
  readDocuments : Document.Reader
  lookupVariable : String → m (Option String)
  newRunId : m String
  timeOfDay : m String
  execute : Machine → List String → m Execution
  /-- Why changes of a file cannot be observed, if they cannot. -/
  watchProblem? : String → m (Option String)
  onChange : String → Settings → m Unit → m Unit
  writeOut : String → m Unit
  writeErr : String → m Unit

structure Console (m : Type → Type) where
  host : Host m
  settings : Settings
  level : Level
  logColour : Bool

section

variable {m : Type → Type} [Monad m]

def Console.out (console : Console m) (text : String) : m Unit := console.host.writeOut text

def Console.err (console : Console m) (text : String) : m Unit := console.host.writeErr text

def Console.errLine (console : Console m) (text : String) : m Unit :=
  console.host.writeErr (text ++ "\n")

def Console.log (console : Console m) (event : Event) : m Unit := do
  if console.level.allows event.level then
    let time ← console.host.timeOfDay
    console.err (event.line time console.logColour)
  else pure ()

def Console.logAll (console : Console m) : List Event → m Unit
  | [] => pure ()
  | event :: rest => do
    console.log event
    console.logAll rest

def paint (colour : Bool) (codes : List Nat) (text : String) : String :=
  if colour then "\x1b[" ++ ";".intercalate (codes.map toString) ++ "m" ++ text ++ "\x1b[0m"
  else text

def red : Nat := 31

def green : Nat := 32

def yellow : Nat := 33

def bold : Nat := 1

def Console.errStyled (console : Console m) (codes : List Nat) (text : String) : m Unit :=
  console.errLine (paint console.settings.colorize codes text)

def Console.errors (console : Console m) (messages : List String) : m Unit := do
  for message in messages do
    console.errStyled [red] message
  console.errStyled [bold] (toString messages.length ++ " error(s)")

end

end Assay.CommandLine
