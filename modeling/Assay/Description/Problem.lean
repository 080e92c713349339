import Assay.Document.Node
import Assay.Source.Position
import Assay.Text.Quoted

/-!
Why a document does not describe a class.
-/

namespace Assay.Description

inductive Cause
  | notOneDocument
  | notAMapping (what : String)
  | notASequence (what : String)
  | notAString (what : String)
  | duplicateKey (key : String)
  | notOneKey (what : String)
  | unknownKey (key what : String)
  | missingName (what : String)
  | unknownCommand (name : String)
  | unknownExpression (name : String)
  | incompleteAssignment
  | missingCondition (what : String)
  | notAnInteger
  | integerOutOfRange
  | notABoolean
  | operandCount (operator : String) (given : Nat)
deriving DecidableEq, Repr

def Cause.message : Cause → String
  | notOneDocument => "a single document describing a class is expected"
  | notAMapping what => what ++ " should be a mapping"
  | notASequence what => what ++ " should be a sequence"
  | notAString what => what ++ " should be a string"
  | duplicateKey key => "duplicate key " ++ Text.quote key
  | notOneKey what => what ++ " should have a single key"
  | unknownKey key what => "unknown key " ++ Text.quote key ++ " in " ++ what
  | missingName what => "missing " ++ what ++ " name"
  | unknownCommand name => "unknown command " ++ Text.quote name
  | unknownExpression name => "unknown expression " ++ Text.quote name
  | incompleteAssignment => "assign requires a field and a value"
  | missingCondition what => what ++ " requires a condition"
  | notAnInteger => "int should be an integer"
  | integerOutOfRange => "integer out of range"
  | notABoolean => "bool should be true or false"
  | operandCount operator given =>
    operator ++ " expects 2 operands, got " ++ toString given

structure Problem where
  position : Position
  cause : Cause
deriving DecidableEq, Repr

def problemLine (position : Position) (message : String) : String :=
  position.text ++ ": " ++ message

def Problem.text (problem : Problem) : String :=
  problemLine problem.position problem.cause.message

structure Complaint where
  place : Document.Place
  cause : Cause
deriving DecidableEq, Repr

def positionOf (source : String) (place : Document.Place) : Position :=
  Position.make source place.line place.column

def Complaint.problem (source : String) (complaint : Complaint) : Problem :=
  { position := positionOf source complaint.place, cause := complaint.cause }

end Assay.Description
