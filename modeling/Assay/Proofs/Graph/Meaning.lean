import Assay.Graph.Arena
import Assay.Proofs.Machine.Steps

/-!
The meaning of a block graph. The instructions of a block are performed one after the other; then
control goes to the only successor, or to the one of two that the condition chooses. No code and no
addresses are involved; only routines that are called from the graph run on the machine.
-/

namespace Assay.Graph

open Bytecode Machine

def ValueKind.resultKind : ValueKind → Kind
  | void => .void
  | int => .int
  | float => .float
  | reference => .ref
  | unknown code => .unknown code

def local? (frame : Frame) (slot : Int) : Option Value :=
  if slot < 0 then none else frame.locals[slot.toNat]?

def readField (frame : Frame) (world : World) (field : String) :
    Except Fault (World × Effect) := do
  let (address, rest) ← frame.popObject
  let object := (world.object? address).getD default
  match object.get? field with
  | some value => pure (world, .proceed (rest.push value))
  | none => throw (.unknownField object.owner field)

def writeField (frame : Frame) (world : World) (field : String) :
    Except Fault (World × Effect) := do
  let (value, rest) ← frame.pop
  let (address, rest) ← rest.popObject
  let object := (world.object? address).getD default
  match object.get? field with
  | some _ => pure (world.setField address field value, .proceed rest)
  | none => throw (.unknownField object.owner field)

def callMethod (program : Program) (frame : Frame) (world : World) (method : MethodRef) :
    Except Fault (World × Effect) := do
  match ← popArguments frame method with
  | none => pure (world, .crash)
  | some (args, rest) =>
    let (receiver, rest) ← rest.pop
    dispatch program rest world method args receiver

def leave (frame : Frame) (world : World) (kind : ValueKind) : Except Fault (World × Effect) := do
  if kind = .void then
    if frame.routine.returns = .void then pure (world, .finish .nil)
    else throw (.voidReturn frame.routine.returns)
  else if frame.routine.returns = .void then throw .valueReturn
  else
    let (value, _) ← frame.pop
    pure (world, .finish value)

def perform (program : Program) (frame : Frame) (world : World) :
    Instruction → Except Fault (World × Effect)
  | .const value => .ok (world, .proceed (frame.push (.int value)))
  | .newString text => .ok (world, .proceed (frame.push (.text text)))
  | .load slot =>
    match local? frame slot with
    | some value => .ok (world, .proceed (frame.push value))
    | none => .error (.invalidLocal slot.toNat)
  | .getField _ field => readField frame world field
  | .putField _ field => writeField frame world field
  | .arithmetic operator => do
    let ((left, right), rest) ← frame.popInts
    pure (world, .proceed (rest.push (.int (operator.apply left right))))
  | .virtualCall owner name args returns =>
    callMethod program frame world { owner, name, args, returns := returns.resultKind }
  | .ret kind => leave frame world kind
  | .unknown _ => .ok (world, .crash)

def Cond.relates : Cond → Int64 → Int64 → Bool
  | ifEq, left, right => left = right
  | ifNe, left, right => left ≠ right
  | ifLt, left, right => left < right
  | ifLe, left, right => left ≤ right
  | ifGt, left, right => right < left
  | ifGe, left, right => right ≤ left
  | _, _, _ => false

def Cond.decide (frame : Frame) : Cond → Except Fault (Bool × Frame)
  | none => .ok (false, frame)
  | ifTrue => do
    let (value, rest) ← frame.popInt
    pure (value ≠ 0, rest)
  | cond => do
    let ((left, right), rest) ← frame.popInts
    pure (cond.relates left right, rest)

/-- A walk through a graph: what is left of the current block, and the machine around it. -/
structure Walk where
  code : List Instruction
  transfer : Transfer
  state : State

namespace Walk

def enter (arena : Arena) (id : BlockIndex) (state : State) : Walk :=
  match arena.get? id with
  | some block => { code := block.code, transfer := block.transfer, state }
  | none => { code := [], transfer := .exit, state }

def advance (machine : Machine) (arena : Arena) (walk : Walk) (frame : Frame)
    (callers : List Frame) (world : World) : Walk :=
  match walk.code with
  | instruction :: rest =>
    { walk with
      code := rest
      state := machine.absorb frame callers world
        (perform machine.program frame world instruction) }
  | [] =>
    match walk.transfer with
    | .exit => { walk with state := failWith (frame :: callers) world .missingReturn }
    | .jump next => enter arena next (.running frame callers world)
    | .branch cond yes no =>
      match cond.decide frame with
      | .error cause => { walk with state := failWith (frame :: callers) world cause }
      | .ok (holds, frame) =>
        enter arena (if holds then yes else no) (.running frame callers world)

/-- One step of a walk. Its own frame is the one with `depth` callers: frames above it belong to
routines that it called, and without it the walk is over. -/
def step (machine : Machine) (arena : Arena) (depth : Nat) (walk : Walk) : Walk :=
  match walk.state with
  | .stopped _ _ => walk
  | .running frame callers world =>
    if callers.length = depth then walk.advance machine arena frame callers world
    else if depth < callers.length then { walk with state := machine.step walk.state }
    else walk

def run (machine : Machine) (arena : Arena) (depth : Nat) : Nat → Walk → Walk
  | 0, walk => walk
  | fuel + 1, walk => run machine arena depth fuel (walk.step machine arena depth)

variable {machine : Machine} {arena : Arena} {depth : Nat}

theorem run_add (first second : Nat) (walk : Walk) :
    run machine arena depth (first + second) walk =
      run machine arena depth second (run machine arena depth first walk) := by
  induction first generalizing walk with
  | zero => simp [run]
  | succ first ih =>
      rw [Nat.succ_add]
      exact ih _

theorem run_succ (fuel : Nat) (walk : Walk) :
    run machine arena depth (fuel + 1) walk =
      run machine arena depth fuel (walk.step machine arena depth) := rfl

@[simp] theorem enter_state (arena : Arena) (id : BlockIndex) (state : State) :
    (enter arena id state).state = state := by
  unfold enter
  split
  · rfl
  · rfl

def Over (depth : Nat) (walk : Walk) : Prop :=
  ∀ frame callers world, walk.state = .running frame callers world → callers.length < depth

theorem Over.step {walk : Walk} (ended : walk.Over depth) :
    walk.step machine arena depth = walk := by
  unfold Walk.step
  split
  · rfl
  · rename_i frame callers world running
    have short := ended frame callers world running
    have notHere : callers.length ≠ depth := by omega
    have notAbove : ¬depth < callers.length := by omega
    simp only [notHere, notAbove, if_false]

theorem Over.run {walk : Walk} (ended : walk.Over depth) (fuel : Nat) :
    run machine arena depth fuel walk = walk := by
  induction fuel with
  | zero => rfl
  | succ fuel ih => rw [run_succ, ended.step, ih]

end Walk

/-- The result of the graph from a block on; none if the walk is not over after `fuel` steps. -/
def interpret (machine : Machine) (arena : Arena) (fuel : Nat) (root : BlockIndex) (frame : Frame)
    (world : World) : Option (Outcome × World) :=
  match (Walk.run machine arena 0 fuel (.enter arena root (.running frame [] world))).state with
  | .stopped outcome world => some (outcome, world)
  | .running _ _ _ => none

end Assay.Graph
