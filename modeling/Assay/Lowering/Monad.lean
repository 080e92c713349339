import Assay.Graph.Arena
import Assay.Source.Position

/-!
Lowering builds a block graph backwards: code is given the block that runs after it and returns the
block that runs first. A failed lowering keeps the blocks allocated up to the failure.
-/

namespace Assay.Lowering

open Assay.Graph

inductive LoweringError
  | unchecked (kindName : String) (position : Position)
  | arena (cause : ArenaError)
deriving DecidableEq, Repr

def LoweringError.message : LoweringError → String
  | unchecked kindName position =>
    "*ast." ++ kindName ++ " at " ++ position.text ++ " translated before being type-checked"
  | arena cause => cause.message

abbrev Lower := ExceptT LoweringError (StateM Arena)

def allocate (operation : Arena → Arena × BlockIndex) : Lower BlockIndex := fun arena =>
  let (grown, id) := operation arena
  (.ok id, grown)

def newBlock (code : List Instruction) : Lower BlockIndex := allocate (·.newBlock code)

def branch (cond : Cond) (yes no : BlockIndex) : Lower BlockIndex := allocate (·.branch cond yes no)

def prepend (code : List Instruction) (next : BlockIndex) : Lower BlockIndex :=
  allocate (·.prepend code next)

def link (id next : BlockIndex) : Lower Unit := fun arena =>
  match arena.link id next with
  | .ok linked => (.ok (), linked)
  | .error cause => (.error (.arena cause), arena)

end Assay.Lowering
