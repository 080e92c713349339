import Assay.CommandLine.FileTree
import Assay.CommandLine.Run

/-!
A host without a system behind it: everything that the commands ask for is given beforehand, and what
they print is recorded.
-/

namespace Assay.CommandLine

open Settings (Environment)

structure Scene where
  files : FileTree
  settingsFile : Option (String × String)
  readDocuments : Document.Reader := Document.reader
  environment : Environment
  cancelled : Bool
  runId : String
  timeOfDay : String
  clock : Nat → Int64
  /-- The number of steps after which a program is given up. -/
  fuel : Nat

structure Transcript where
  out : String
  err : String
deriving DecidableEq, Repr, Inhabited

def appendOut (text : String) : StateM Transcript Unit :=
  modify fun { out, err } => { out := out ++ text, err }

def appendErr (text : String) : StateM Transcript Unit :=
  modify fun { out, err } => { out, err := err ++ text }

def executeProgram (scene : Scene) (machine : Machine) (args : List String) :
    StateM Transcript Execution := do
  let world := Machine.World.new scene.clock none
  match machine.respond scene.fuel world (.run args) with
  | some (outcome, world) =>
    appendOut world.output
    pure { outcome, output := world.output }
  | none => pure { outcome := .crashed, output := "" }

def Scene.host (scene : Scene) : Host (StateM Transcript) :=
  { cancelled := scene.cancelled
    readFile := fun path => pure (scene.files.read path)
    settingsFile := pure scene.settingsFile
    readDocuments := scene.readDocuments
    lookupVariable := fun name => pure (scene.environment name)
    newRunId := pure scene.runId
    timeOfDay := pure scene.timeOfDay
    execute := executeProgram scene
    watchProblem? := fun path => pure (scene.files.watchProblem? path)
    onChange := fun _ _ _ => pure ()
    writeOut := appendOut
    writeErr := appendErr }

def Scene.play (scene : Scene) (arguments : List String) : Nat × Transcript :=
  (launch scene.host arguments).run { out := "", err := "" }

end Assay.CommandLine
