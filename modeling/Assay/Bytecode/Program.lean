import Assay.Bytecode.Constant

/-!
Compiled classes and programs.
-/

namespace Assay.Bytecode

structure FieldSlot where
  name : String
  kind : Kind
deriving DecidableEq, Repr, Inhabited

structure Routine where
  name : String
  isStatic : Bool
  params : Int
  locals : Int
  returns : Kind
  code : Array UInt8
deriving DecidableEq, Repr, Inhabited

structure ClassImage where
  name : String
  fields : List FieldSlot
  pool : ConstantPool
  routines : Array Routine

inductive LookupError
  | unknownClass (name : String)
  | unknownRoutine (owner name : String)
deriving DecidableEq, Repr

def LookupError.message : LookupError → String
  | unknownClass name => "unknown class: " ++ name
  | unknownRoutine owner name => "unknown routine: " ++ owner ++ "." ++ name

namespace ClassImage

def new (name : String) : ClassImage :=
  { name, fields := [], pool := .empty, routines := #[] }

def constants (image : ClassImage) : Array Constant := image.pool.entries

def routine? (image : ClassImage) (name : String) : Option Routine :=
  image.routines.find? fun routine => routine.name = name

def routineExists (image : ClassImage) (name : String) : String :=
  "routine " ++ image.name ++ "." ++ name ++ " already exists"

def addRoutine? (image : ClassImage) (routine : Routine) : Option ClassImage :=
  if (image.routine? routine.name).isSome then none
  else some { image with routines := image.routines.push routine }

def intern (image : ClassImage) (constant : Constant) : ClassImage × Nat :=
  let { name, fields, pool, routines } := image
  let (pool, index) := pool.intern constant
  ({ name, fields, pool, routines }, index)

end ClassImage

structure EntryPoint where
  owner : String
  routine : String
deriving DecidableEq, Repr, Inhabited

/-- A set of classes with an entry point. No two classes have one name. -/
structure Program where
  id : String
  entry : EntryPoint
  classes : List ClassImage

namespace Program

def new (id : String) (entry : EntryPoint) : Program := { id, entry, classes := [] }

def class? (program : Program) (name : String) : Option ClassImage :=
  program.classes.find? fun image => image.name = name

/-- Adds a class in place of an earlier one of its name. -/
def addClass (program : Program) (image : ClassImage) : Program :=
  { program with
    classes := (program.classes.filter fun other => other.name ≠ image.name) ++ [image] }

def lookup (program : Program) (owner name : String) :
    Except LookupError (ClassImage × Routine) :=
  match program.class? owner with
  | none => .error (.unknownClass owner)
  | some image =>
    match image.routine? name with
    | none => .error (.unknownRoutine owner name)
    | some routine => .ok (image, routine)

end Program

end Assay.Bytecode
