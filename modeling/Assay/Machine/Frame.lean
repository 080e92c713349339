import Assay.Machine.Fault

/-!
Frames: the state of one call, with the operand stack on which its instructions work.
-/

namespace Assay.Machine

open Bytecode

/-- A call of a routine. `keepsResult` says whether the call that the frame waits for leaves its result
on the stack. -/
structure Frame where
  image : ClassImage
  routine : Routine
  locals : Array Value
  stack : List Value
  offset : Nat
  keepsResult : Bool

namespace Frame

/-- The greatest number of locals: there are addresses for 2 ^ 48 bytes, and a value takes 16. -/
def maxLocals : Nat := 1 <<< 44

/-- Whether memory can have a place for each local of a routine. Arguments that are passed have had
theirs. -/
def hasPlace (routine : Routine) : Bool := routine.locals ≤ max routine.params maxLocals

def enter (image : ClassImage) (routine : Routine) (args : List Value) : Frame :=
  let size := (max routine.locals routine.params).toNat
  { image
    routine
    locals := args.toArray ++ Array.replicate (size - args.length) .nil
    stack := []
    offset := 0
    keepsResult := false }

def name (frame : Frame) : String := frame.image.name ++ "." ++ frame.routine.name

def underflow (frame : Frame) : Fault := .stackUnderflow frame.image.name frame.routine.name

def push (frame : Frame) (value : Value) : Frame := { frame with stack := value :: frame.stack }

def pop (frame : Frame) : Except Fault (Value × Frame) :=
  match frame.stack with
  | value :: stack => .ok (value, { frame with stack })
  | [] => .error frame.underflow

def popInt (frame : Frame) : Except Fault (Int64 × Frame) :=
  match frame.pop with
  | .ok (.int value, rest) => .ok (value, rest)
  | .ok (found, _) => .error (.typeMismatch "int" found)
  | .error fault => .error fault

def popFloat (frame : Frame) : Except Fault (Float × Frame) :=
  match frame.pop with
  | .ok (.float value, rest) => .ok (value, rest)
  | .ok (found, _) => .error (.typeMismatch "float" found)
  | .error fault => .error fault

def popObject (frame : Frame) : Except Fault (Nat × Frame) :=
  match frame.pop with
  | .ok (.object address, rest) => .ok (address, rest)
  | .ok (.nilObject, _) => .error .nilReceiver
  | .ok (found, _) => .error (.typeMismatch "object" found)
  | .error fault => .error fault

def popInts (frame : Frame) : Except Fault ((Int64 × Int64) × Frame) := do
  let (right, rest) ← frame.popInt
  let (left, rest) ← rest.popInt
  pure ((left, right), rest)

def popMany (frame : Frame) (count : Nat) : Except Fault (List Value × Frame) :=
  if frame.stack.length < count then .error frame.underflow
  else
    .ok ((frame.stack.take count).reverse, { frame with stack := frame.stack.drop count })

def constant (frame : Frame) (index : Nat) : Except Fault Constant :=
  match frame.image.constants[index]? with
  | some constant => .ok constant
  | none => .error (.missingConstant index frame.image.name)

def stringConstant (frame : Frame) (index : Nat) : Except Fault String := do
  let constant ← frame.constant index
  if constant.kind = .string then pure constant.text else throw (.notAString index)

def methodConstant (frame : Frame) (index : Nat) : Except Fault MethodRef := do
  let constant ← frame.constant index
  match constant.kind, constant.method with
  | .method, some method => pure method
  | _, _ => throw (.notAMethod index)

def pushable (constant : Constant) : Except Fault Value :=
  match constant.kind with
  | .int => .ok (.int constant.int)
  | .float => .ok (.float constant.float)
  | .string => .ok (.text constant.text)
  | _ => .error (.notPushable constant)

end Frame

end Assay.Machine
