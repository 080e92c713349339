import Assay.Bytecode.Encoding
import Assay.Machine.Frame
import Assay.Machine.World

/-!
One instruction of a frame. An instruction that faults changes nothing outside its frame.
-/

namespace Assay.Machine

open Bytecode

inductive Effect
  | proceed (frame : Frame)
  | call (caller : Frame) (image : ClassImage) (routine : Routine) (args : List Value)
  | finish (value : Value)
  | crash

/-- Goes to an offset of the routine. The end of the code is still a valid target. -/
def jumpTo (frame : Frame) (target : Nat) : Except Fault Effect :=
  if frame.routine.code.size < target then .error (.jumpOutOfRoutine target)
  else .ok (.proceed { frame with offset := target })

def comparison (opcode : Opcode) (left right : Int64) : Bool :=
  match opcode with
  | .jumpIfEq => left = right
  | .jumpIfNe => left ≠ right
  | .jumpIfLt => left < right
  | .jumpIfLe => left ≤ right
  | .jumpIfGt => right < left
  | _ => right ≤ left

def arithmetic (opcode : Opcode) (left right : Int64) : Int64 :=
  match opcode with
  | .add => left + right
  | .sub => left - right
  | _ => left * right

def newObject (program : Program) (frame : Frame) (world : World) (index : Nat) :
    Except Fault (World × Effect) := do
  let name ← frame.stringConstant index
  match program.class? name with
  | none => throw (.lookup (.unknownClass name))
  | some image =>
    let (world, address) := world.allocate (Object.new image)
    pure (world, .proceed (frame.push (.object address)))

def getField (frame : Frame) (world : World) (index : Nat) : Except Fault (World × Effect) := do
  let name ← frame.stringConstant index
  let (address, rest) ← frame.popObject
  let object := (world.object? address).getD default
  match object.get? name with
  | some value => pure (world, .proceed (rest.push value))
  | none => throw (.unknownField object.owner name)

def setField (frame : Frame) (world : World) (index : Nat) : Except Fault (World × Effect) := do
  let name ← frame.stringConstant index
  let (value, rest) ← frame.pop
  let (address, rest) ← rest.popObject
  let object := (world.object? address).getD default
  match object.get? name with
  | some _ => pure (world.setField address name value, .proceed rest)
  | none => throw (.unknownField object.owner name)

def printValue (frame : Frame) (world : World) : Except Fault (World × Effect) := do
  let (value, rest) ← frame.pop
  match value.printed? with
  | none => throw (.unprintable value)
  | some text =>
    match world.write? text with
    | some written => pure (written, .proceed rest)
    | none => throw .outputLimit

/-- A negative number of arguments cannot be popped. -/
def popArguments (frame : Frame) (method : MethodRef) : Except Fault (Option (List Value × Frame)) :=
  if method.args < 0 then .ok none
  else
    match frame.popMany method.args.toNat with
    | .ok popped => .ok (some popped)
    | .error fault => .error fault

def callEffect (caller : Frame) (method : MethodRef) (image : ClassImage) (routine : Routine)
    (args : List Value) : Effect :=
  .call { caller with keepsResult := method.returns ≠ .void } image routine args

def isOutput (method : MethodRef) : Bool :=
  method.owner = "String" && method.name = "output" && method.args = 0

/-- Strings print themselves; objects are called by the class that they have. -/
def dispatch (program : Program) (frame : Frame) (world : World) (method : MethodRef)
    (args : List Value) : Value → Except Fault (World × Effect)
  | .text text =>
    if isOutput method then
      match world.write? text with
      | some written => .ok (written, .proceed frame)
      | none => .error .outputLimit
    else .error (.unknownMethod method)
  | .object address =>
    let object := (world.object? address).getD default
    match program.lookup object.owner method.name with
    | .error _ => .error (.unknownMethod method)
    | .ok (image, routine) =>
      if routine.isStatic then .error (.unknownMethod method)
      else .ok (world, callEffect frame method image routine (.object address :: args))
  | .nilObject => .error .nilReceiver
  | receiver => .error (.noMethodOn method receiver)

def invokeVirtual (program : Program) (frame : Frame) (world : World) (index : Nat) :
    Except Fault (World × Effect) := do
  let method ← frame.methodConstant index
  match ← popArguments frame method with
  | none => pure (world, .crash)
  | some (args, rest) =>
    let (receiver, rest) ← rest.pop
    dispatch program rest world method args receiver

def invokeStatic (program : Program) (frame : Frame) (world : World) (index : Nat) :
    Except Fault (World × Effect) := do
  let method ← frame.methodConstant index
  match program.lookup method.owner method.name with
  | .error problem => throw (.lookup problem)
  | .ok (image, routine) =>
    if !routine.isStatic || routine.returns ≠ method.returns then throw (.unknownMethod method)
    else
      match ← popArguments frame method with
      | none => pure (world, .crash)
      | some (args, rest) => pure (world, callEffect rest method image routine args)

def execute (program : Program) (frame : Frame) (world : World) (opcode : Opcode)
    (operand : Nat) : Except Fault (World × Effect) := do
  match opcode with
  | .pushConstant =>
    let value ← Frame.pushable (← frame.constant operand)
    pure (world, .proceed (frame.push value))
  | .pop =>
    let (_, rest) ← frame.pop
    pure (world, .proceed rest)
  | .dup =>
    let (value, rest) ← frame.pop
    pure (world, .proceed ((rest.push value).push value))
  | .load =>
    match frame.locals[operand]? with
    | some value => pure (world, .proceed (frame.push value))
    | none => throw (.invalidLocal operand)
  | .store =>
    if operand < frame.locals.size then
      let (value, rest) ← frame.pop
      pure (world, .proceed { rest with locals := rest.locals.setIfInBounds operand value })
    else throw (.invalidLocal operand)
  | .new => newObject program frame world operand
  | .getField => getField frame world operand
  | .setField => setField frame world operand
  | .add | .sub | .mul =>
    let ((left, right), rest) ← frame.popInts
    pure (world, .proceed (rest.push (.int (arithmetic opcode left right))))
  | .neg =>
    let (value, rest) ← frame.popInt
    pure (world, .proceed (rest.push (.int (-value))))
  | .intToFloat =>
    let (value, rest) ← frame.popInt
    pure (world, .proceed (rest.push (.float value.toFloat)))
  | .floatDiv =>
    let (right, rest) ← frame.popFloat
    let (left, rest) ← rest.popFloat
    if right == 0 then throw .divisionByZero
    else pure (world, .proceed (rest.push (.float (left / right))))
  | .nanoTime =>
    let (world, reading) := world.readClock
    pure (world, .proceed (frame.push (.int reading)))
  | .print => printValue frame world
  | .invokeVirtual => invokeVirtual program frame world operand
  | .invokeStatic => invokeStatic program frame world operand
  | .jump => pure (world, ← jumpTo frame operand)
  | .jumpIfTrue =>
    let (value, rest) ← frame.popInt
    if value ≠ 0 then pure (world, ← jumpTo rest operand) else pure (world, .proceed rest)
  | .jumpIfEq | .jumpIfNe | .jumpIfLt | .jumpIfLe | .jumpIfGt | .jumpIfGe =>
    let ((left, right), rest) ← frame.popInts
    if comparison opcode left right then pure (world, ← jumpTo rest operand)
    else pure (world, .proceed rest)
  | .ret =>
    if frame.routine.returns = .void then pure (world, .finish .nil)
    else throw (.voidReturn frame.routine.returns)
  | .retValue =>
    if frame.routine.returns = .void then throw .valueReturn
    else
      let (value, _) ← frame.pop
      pure (world, .finish value)

def Frame.advance (program : Program) (frame : Frame) (world : World) :
    Except Fault (World × Effect) :=
  match decodeAt frame.routine.code frame.offset with
  | .finished => .error .missingReturn
  | .truncated => .ok (world, .crash)
  | .invalid byte => .error (.invalidOpcode byte frame.offset)
  | .instruction opcode operands next =>
    execute program { frame with offset := next } world opcode (operands.headD 0)

end Assay.Machine
