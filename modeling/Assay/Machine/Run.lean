import Assay.Machine.Step

/-!
Runs of a machine. A request starts with one call and ends when that call ends; nothing but the world
is left of it, so requests on one machine do not disturb each other.
-/

namespace Assay

open Bytecode

structure Machine where
  program : Program
  frameLimit : Nat

namespace Machine

def defaultFrameLimit : Nat := 1000

/-- A machine; a limit that is not positive stands for the default. -/
def new (program : Program) (frameLimit : Int) : Machine :=
  { program, frameLimit := if frameLimit ≤ 0 then defaultFrameLimit else frameLimit.toNat }

/-- A fault with the routines that were active, outermost first. -/
structure Failure where
  active : List String
  cause : Fault
deriving Repr

def Failure.message (failure : Failure) : String :=
  String.join (failure.active.map (· ++ ": ")) ++ failure.cause.message

inductive Outcome
  | returned (value : Value)
  | failed (failure : Failure)
  | crashed
deriving Repr

def Outcome.isReturned : Outcome → Bool
  | returned _ => true
  | _ => false

inductive Request
  | run (args : List String)
  | call (owner routine : String) (args : List Value)
deriving Repr

/-- What is answered to a request. The value returned by the entry point of a program is dropped. -/
def Request.answer : Request → Outcome → Outcome
  | run _, .returned _ => .returned .nil
  | _, outcome => outcome

/-- The state of a request. The innermost frame comes first. -/
inductive State
  | running (frame : Frame) (callers : List Frame) (world : World)
  | stopped (outcome : Outcome) (world : World)

def failWith (frames : List Frame) (world : World) (cause : Fault) : State :=
  .stopped (.failed { active := frames.reverse.map Frame.name, cause }) world

/-- Calls a routine on top of the frames of its callers. A machine breaks down on locals that no memory
has a place for. -/
def enterCall (machine : Machine) (callers : List Frame) (world : World) (image : ClassImage)
    (routine : Routine) (args : List Value) : State :=
  if (args.length : Int) ≠ routine.params then
    failWith callers world
      (.wrongArgumentCount image.name routine.name routine.params args.length)
  else if machine.frameLimit ≤ callers.length then failWith callers world .tooManyFrames
  else if Frame.hasPlace routine then .running (Frame.enter image routine args) callers world
  else .stopped .crashed world

def deliver (value : Value) (world : World) : List Frame → State
  | [] => .stopped (.returned value) world
  | caller :: callers =>
    .running (if caller.keepsResult then caller.push value else caller) callers world

def step (machine : Machine) : State → State
  | .stopped outcome world => .stopped outcome world
  | .running frame callers world =>
    match frame.advance machine.program world with
    | .error cause => failWith (frame :: callers) world cause
    | .ok (world, .proceed frame) => .running frame callers world
    | .ok (world, .call caller image routine args) =>
      machine.enterCall (caller :: callers) world image routine args
    | .ok (world, .finish value) => deliver value world callers
    | .ok (world, .crash) => .stopped .crashed world

def run (machine : Machine) : Nat → State → State
  | 0, state => state
  | fuel + 1, state =>
    match state with
    | .stopped outcome world => .stopped outcome world
    | .running frame callers world => machine.run fuel (machine.step (.running frame callers world))

def call (machine : Machine) (world : World) (owner routine : String) (args : List Value) :
    State :=
  match machine.program.lookup owner routine with
  | .error problem => failWith [] world (.lookup problem)
  | .ok (image, routine) => machine.enterCall [] world image routine args

def start (machine : Machine) (world : World) : Request → State
  | .run args =>
    machine.call world machine.program.entry.owner machine.program.entry.routine [.strings args]
  | .call owner routine args => machine.call world owner routine args

def settle (machine : Machine) (fuel : Nat) (state : State) : Option (Outcome × World) :=
  match machine.run fuel state with
  | .stopped outcome world => some (outcome, world)
  | .running _ _ _ => none

def respond (machine : Machine) (fuel : Nat) (world : World) (request : Request) :
    Option (Outcome × World) :=
  (machine.settle fuel (machine.start world request)).map fun (outcome, world) =>
    (request.answer outcome, world)

/-- Deals with requests one after the other, whatever their outcomes. -/
def serve (machine : Machine) (fuel : Nat) :
    World → List Request → Option (List (Outcome × World))
  | _, [] => some []
  | world, request :: rest =>
    match machine.respond fuel world request with
    | none => none
    | some (outcome, world) => (machine.serve fuel world rest).map ((outcome, world) :: ·)

end Machine

end Assay
