import Assay.Machine.Value

/-!
Why a program fails while it runs.
-/

namespace Assay.Machine

open Bytecode

inductive Fault
  | stackUnderflow (owner routine : String)
  | typeMismatch (expected : String) (found : Value)
  | unprintable (found : Value)
  | unknownField (owner field : String)
  | unknownMethod (method : MethodRef)
  | noMethodOn (method : MethodRef) (receiver : Value)
  | missingConstant (index : Nat) (owner : String)
  | notAString (index : Nat)
  | notAMethod (index : Nat)
  | notPushable (constant : Constant)
  | invalidLocal (slot : Nat)
  | invalidOpcode (byte : UInt8) (offset : Nat)
  | jumpOutOfRoutine (target : Nat)
  | missingReturn
  | voidReturn (expected : Kind)
  | valueReturn
  | tooManyFrames
  | wrongArgumentCount (owner routine : String) (expected : Int) (given : Nat)
  | nilReceiver
  | divisionByZero
  | outputLimit
  | lookup (cause : LookupError)
deriving Repr

def Fault.message : Fault → String
  | stackUnderflow owner routine => "stack underflow in " ++ owner ++ "." ++ routine
  | typeMismatch expected found =>
    "type mismatch: " ++ expected ++ " expected, found " ++ found.kindName
  | unprintable found => "type mismatch: " ++ found.kindName ++ " cannot be printed"
  | unknownField owner field => "unknown field: " ++ owner ++ "." ++ field
  | unknownMethod method => "unknown method: " ++ method.text
  | noMethodOn method receiver => "unknown method: " ++ method.text ++ " on " ++ receiver.kindName
  | missingConstant index owner => "invalid constant: " ++ toString index ++ " in " ++ owner
  | notAString index => "invalid constant: " ++ toString index ++ " is not a string"
  | notAMethod index => "invalid constant: " ++ toString index ++ " is not a method"
  | notPushable constant => "invalid constant: " ++ constant.shown ++ " cannot be pushed"
  | invalidLocal slot => "invalid local: " ++ toString slot
  | invalidOpcode byte offset =>
    "invalid opcode: " ++ toString byte.toNat ++ " at " ++ toString offset
  | jumpOutOfRoutine target => "jump target out of routine: " ++ toString target
  | missingReturn => "routine ended without a return"
  | voidReturn expected =>
    "unexpected return kind: void return in a routine returning " ++ expected.text
  | valueReturn => "unexpected return kind: value returned by a void routine"
  | tooManyFrames => "too many frames"
  | wrongArgumentCount owner routine expected given =>
    "wrong number of arguments: " ++ owner ++ "." ++ routine ++ " expects " ++ toString expected ++
      ", got " ++ toString given
  | nilReceiver => "nil receiver"
  | divisionByZero => "division by zero"
  | outputLimit => "output limit"
  | lookup cause => cause.message

end Assay.Machine
