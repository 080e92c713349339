import Assay.CommandLine.Transcript
import Assay.Proofs.Assembly.Isolation
import Assay.Proofs.Report.Summaries

/-!
The verdict on the tests of a class file. The numbers that are read from the output of a program are those
of its tests, whatever the class and its members are called, and the status tells whether a test failed.
-/

namespace Assay.CommandLine

open Assembly Bytecode Machine Report Syntax Typing

section Times

end Times

section Reports

end Reports

section Commands

variable {α β : Type}

def Yields (action : StateM Transcript α) (value : α) : Prop :=
  ∀ transcript, (action.run transcript).1 = value

theorem Yields.bind {action : StateM Transcript α} {value : α} {next : α → StateM Transcript β}
    {result : β} (first : Yields action value) (second : Yields (next value) result) :
    Yields (action >>= next) result := by
  intro transcript
  rw [StateT.run_bind]
  change ((next (action.run transcript).1).run (action.run transcript).2).1 = result
  rw [first transcript]
  exact second _

/-- A class file in a scene whose tests are compiled and come to their end. -/
structure TestedFile (declaration : ClassDeclaration) (scene : Scene) (names : List String)
    (path : String) where
  text : String
  isRead : scene.files.read path = .ok text
  described : Description.readClass path text scene.readDocuments = .ok declaration
  selection : Selection
  chosen : selectionOf (check declaration) names = .ok selection
  log : List Logging.Event
  program : Program
  compiled : compile scene.runId (check declaration) selection = (log, .ok program)
  finish : World
  answered : (Machine.new program 0).respond scene.fuel (World.new scene.clock none)
    (.run [path]) = some (.returned .nil, finish)

variable {declaration : ClassDeclaration} {scene : Scene} {names : List String} {path : String}

def TestedFile.run (file : TestedFile declaration scene names path) : FinishedRun declaration where
  names := if names.isEmpty then none else some names
  selection := file.selection
  chosen := by
    have chosen := file.chosen
    unfold selectionOf at chosen
    split at chosen
    · rename_i empty
      rw [if_pos empty]
      exact chosen
    · rename_i notEmpty
      rw [if_neg notEmpty]
      exact chosen
  runId := scene.runId
  log := file.log
  program := file.program
  compiled := file.compiled
  limit := 0
  args := [path]
  world := World.new scene.clock none
  fuel := scene.fuel
  finish := file.finish
  answered := file.answered

end Commands

variable {declaration : ClassDeclaration}

end Assay.CommandLine
