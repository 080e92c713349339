import Assay.Proofs.Assembly.Simulation

/-!
Linearization preserves meaning: a routine with the code of a graph ends exactly when the graph does,
with the same result and in the same world, if methods of one text are the same method to every object.
Otherwise the pool has one entry for two methods, and the code may call the other one.
-/

namespace Assay.Assembly

open Bytecode Assay.Graph Machine

/-- No routine of the program is called on an object. So it is in every program of generated classes. -/
def AllStatic (program : Program) : Prop :=
  ∀ image ∈ program.classes, ∀ routine ∈ image.routines, routine.isStatic = true

theorem virtual?_of_allStatic {program : Program} (allStatic : AllStatic program)
    (owner name : String) : virtual? program owner name = none := by
  unfold virtual?
  split
  · rename_i image routine found
    unfold Program.lookup at found
    split at found
    · simp at found
    · rename_i candidate isClass
      split at found
      · simp at found
      · rename_i member isRoutine
        simp only [Except.ok.injEq, Prod.mk.injEq] at found
        obtain ⟨rfl, rfl⟩ := found
        have static := allStatic candidate (List.mem_of_find?_eq_some isClass) member
          (Array.mem_of_find?_eq_some isRoutine)
        rw [if_pos static]
  · rfl

theorem unambiguous_of_allStatic {program : Program} (allStatic : AllStatic program) (arena : Arena)
    (root : BlockIndex) (constants : Array Constant) :
    Unambiguous program arena root constants := by
  intro method entry calls member sameText owner
  rw [virtual?_of_allStatic allStatic, virtual?_of_allStatic allStatic]

theorem Linearized.start_tracks (machine : Machine) {routine : RoutineCode} {root : BlockIndex}
    {frame : Frame} (linearized : Linearized routine root) (callers : List Frame) (world : World)
    (hosts : Hosts routine frame)
    (unambiguous : Unambiguous machine.program routine.arena root frame.image.constants) :
    ∃ rank, Tracks routine machine.program root callers.length rank
      (Walk.enter routine.arena root (.running frame callers world))
      (.running { frame with offset := 0 } callers world) := by
  obtain ⟨rest, stands⟩ := linearized.start
  exact ⟨rest.length, Tracks.enter frame world rfl hosts unambiguous .root stands⟩

theorem interpret_eq_some_iff (machine : Machine) (arena : Arena) (fuel : Nat) (root : BlockIndex)
    (frame : Frame) (world after : World) (outcome : Outcome) :
    interpret machine arena fuel root frame world = some (outcome, after) ↔
      (Walk.run machine arena 0 fuel (.enter arena root (.running frame [] world))).state =
        .stopped outcome after := by
  unfold interpret
  split
  · rename_i found
    rw [found]
    simp
  · rename_i found
    rw [found]
    simp

/-- For every start of a routine with the code of a graph, running the routine and walking through the
graph end alike: one ends if the other does, in the same world, with the same value or the same error. -/
theorem linearize_preserves_results {machine : Machine} {arena : Arena} {generator : Generator}
    {root : BlockIndex} {image : ClassImage} {routine : Routine} (generated : Generated arena generator)
    (linearized : linearize generator arena root = .ok routine.code)
    (constants : Retains generator.image.constants image.constants)
    (unambiguous : Unambiguous machine.program arena root image.constants)
    (locals : Array Value) (world : World) :
    let frame : Frame := { image, routine, locals, stack := [], offset := 0, keepsResult := false }
    (∀ fuel outcome after, interpret machine arena fuel root frame world = some (outcome, after) →
      ∃ steps result, machine.settle steps (.running frame [] world) = some (result, after) ∧
        outcome.Same result) ∧
    ∀ steps result after, machine.settle steps (.running frame [] world) = some (result, after) →
      ∃ fuel outcome, interpret machine arena fuel root frame world = some (outcome, after) ∧
        outcome.Same result := by
  intro frame
  obtain ⟨addresses, placed⟩ := linearize_linearized generated.sound linearized
  have hosts : Hosts { arena, constants := generator.image.constants, addresses, code := routine.code }
      frame := ⟨rfl, constants⟩
  obtain ⟨rank, start⟩ := placed.start_tracks machine [] world hosts unambiguous
  constructor
  · intro fuel outcome after interpreted
    rw [interpret_eq_some_iff] at interpreted
    obtain ⟨steps, next, last⟩ := start.follow fuel placed
    have ended : (Walk.run machine arena 0 fuel
        (.enter arena root (.running frame [] world))).Over 0 := by
      intro last callers final running
      rw [interpreted] at running
      simp at running
    have same := last.same_of_over ended
    have ended : (State.stopped outcome after).Same
        (machine.run steps (.running frame [] world)) := by
      rw [← interpreted]
      exact same
    obtain ⟨result, sameOutcome, ran⟩ := ended.of_stopped
    exact ⟨steps, result, (settle_eq_some_iff _ _ _ _).mpr ran, sameOutcome⟩
  · intro steps result after settled
    rw [settle_eq_some_iff] at settled
    rcases start.follows steps placed with
      ⟨fuel, last, callers, final, offset, walked, deep, ran⟩ | ⟨fuel, taken, before, ended, same⟩
    · have stopped : machine.run steps (.running frame [] world) =
          (State.running last callers final).move 0 offset := ran
      rw [settled] at stopped
      simp only [State.move] at stopped
      split at stopped
      · simp at stopped
      · simp at stopped
    · cases walked : (Walk.run machine arena 0 fuel
          (.enter arena root (.running frame [] world))).state with
      | running last callers final =>
          exact absurd (ended last callers final walked) (Nat.not_lt_zero _)
      | stopped outcome final =>
          have ended : (State.stopped outcome final).Same
              (machine.run taken (.running frame [] world)) := by
            rw [← walked]
            exact same
          obtain ⟨early, sameOutcome, ran⟩ := ended.of_stopped
          have late := run_stopped_of_le ran before
          rw [settled] at late
          simp only [State.stopped.injEq] at late
          obtain ⟨rfl, rfl⟩ := late
          exact ⟨fuel, outcome, (interpret_eq_some_iff _ _ _ _ _ _ _ _).mpr walked, sameOutcome⟩

/-- Waits until its first local variable differs from zero, then prints and returns. -/
def waitingArena : Arena :=
  { tag := 0
    blocks := #[
      { id := ⟨0⟩, code := [.newString "ready", .virtualCall "String" "output" 0 .void, .const 7, .ret .int]
        transfer := .exit, incoming := 1 },
      { id := ⟨1⟩, code := [.load 0], transfer := .jump 2, incoming := 2 },
      { id := ⟨2⟩, code := [], transfer := .branch .ifTrue 0 3, incoming := 1 },
      { id := ⟨3⟩, code := [], transfer := .jump 1, incoming := 1 }] }

def waitingGenerator : Generator :=
  let visited := ((((∅ : Std.HashSet BlockIndex).insert 0).insert 1).insert 2).insert 3
  [0, 1, 2, 3].foldl
    (fun generator id => (generator.materialize waitingArena visited id).1) (.new "Waiting")

def waitingRoutine : Routine :=
  { name := "wait", isStatic := true, params := 1, locals := 1, returns := .int
    code := #[4, 0, 20, 0, 8, 19, 0, 0, 1, 0, 0, 17, 0, 1, 1, 0, 2, 28] }

def waitingMachine : Machine :=
  .new (.new "" { owner := "Waiting", routine := "wait" }) 10

theorem waiting_generated : Generated waitingArena waitingGenerator :=
  .materialize _ 3 (.materialize _ 2 (.materialize _ 1 (.materialize _ 0 (.start _ _))))

theorem waiting_layout : waitingArena.layout 1 = [1, 2, 3, 0] := by
  simp [Arena.layout, Arena.layoutFrom, waitingArena, Placement.start, Arena.get?, Placement.place,
    Std.HashSet.contains_insert, Arena.size]

theorem waiting_lowered : waitingGenerator.lowered =
    ((((∅ : Std.HashMap BlockIndex (Array UInt8)).insert 0 #[1, 0, 0, 17, 0, 1, 1, 0, 2, 28]).insert 1
      #[4, 0]).insert 2 #[]).insert 3 #[] := by
  simp [waitingGenerator, Generator.materialize, Generator.new, waitingArena, Arena.get?,
    Block.successors, Transfer.successors, lowerCode, lowerInstruction, constantInstruction,
    ClassImage.intern, ConstantPool.intern, key?_ofInt, key?_ofString, key?_ofMethod, kindOf,
    Instruction.isReturn, plainInstruction, encode, encodeOperands, bigEndian, Except.mapError,
    endsWithReturn, Block.isExit, Transfer.isExit, ClassImage.new, ConstantPool.empty,
    Opcode.widths, Opcode.toByte]

theorem waiting_linearized :
    linearize waitingGenerator waitingArena 1 = .ok waitingRoutine.code := by
  simp only [linearize, waiting_layout]
  simp [placedBlocks, waiting_lowered, waitingArena, Arena.get?, joinBlocks, addressTable, bind,
    Except.bind, Std.HashMap.getElem_insert, transferSize, jumpSize, condJumpSize, jumpOpcode?,
    Opcode.size, Opcode.widths, following, encodeTransfer, encodeJump, encodeJumpUnlessFollowing,
    encode, encodeOperands, bigEndian, Opcode.toByte, Except.mapError, pure, Except.pure,
    waitingRoutine]

theorem linearize_preserves_results_waiting :
    Generated waitingArena waitingGenerator ∧
      linearize waitingGenerator waitingArena 1 = .ok waitingRoutine.code ∧
      Unambiguous waitingMachine.program waitingArena 1 waitingGenerator.image.constants ∧
      let frame : Frame :=
        { image := waitingGenerator.image, routine := waitingRoutine, locals := #[.int 1], stack := []
          offset := 0, keepsResult := false }
      let world : World := .new (fun _ => 0) none
      (∀ fuel outcome after,
        interpret waitingMachine waitingArena fuel 1 frame world = some (outcome, after) →
        ∃ steps result,
          waitingMachine.settle steps (.running frame [] world) = some (result, after) ∧
            outcome.Same result) ∧
      ∀ steps result after,
        waitingMachine.settle steps (.running frame [] world) = some (result, after) →
        ∃ fuel outcome,
          interpret waitingMachine waitingArena fuel 1 frame world = some (outcome, after) ∧
            outcome.Same result := by
  have unambiguous : Unambiguous waitingMachine.program waitingArena 1
      waitingGenerator.image.constants :=
    unambiguous_of_allStatic (fun image member => by cases member) _ _ _
  exact ⟨waiting_generated, waiting_linearized, unambiguous,
    linearize_preserves_results waiting_generated waiting_linearized (Retains.refl _) unambiguous
      #[.int 1] (.new (fun _ => 0) none)⟩

/-- Calls the method `c` of a class `A.b` and then the method `b.c` of a class `A`, both on its first
local variable, and returns the second result. -/
def homonymArena : Arena :=
  { tag := 0
    blocks := #[
      { id := ⟨0⟩
        code := [.load 0, .virtualCall "A.b" "c" 0 .int, .load 0, .virtualCall "A" "b.c" 0 .int,
          .ret .int]
        transfer := .exit, incoming := 0 }] }

def homonymGenerator : Generator :=
  ((Generator.new "Main").materialize homonymArena ∅ 0).1

def homonymRoutine : Routine :=
  { name := "main", isStatic := true, params := 1, locals := 1, returns := .int
    code := #[4, 0, 17, 0, 0, 4, 0, 17, 0, 0, 28] }

def constantRoutine (name : String) (index : UInt8) : Routine :=
  { name, isStatic := false, params := 1, locals := 1, returns := .int, code := #[1, 0, index, 28] }

def homonymClass : ClassImage :=
  { ClassImage.new "A" with
    pool := { ConstantPool.empty with entries := #[.ofInt 1, .ofInt 2] }
    routines := #[constantRoutine "c" 0, constantRoutine "b.c" 1] }

def homonymMachine : Machine :=
  .new { id := "", entry := { owner := "Main", routine := "main" }, classes := [homonymClass] } 10

def homonymMethod : MethodRef := { owner := "A.b", name := "c", args := 0, returns := .int }

theorem homonym_materialized :
    homonymGenerator.lowered =
        (∅ : Std.HashMap BlockIndex (Array UInt8)).insert 0 homonymRoutine.code ∧
      homonymGenerator.image.constants = #[.ofMethod homonymMethod] := by
  simp [homonymGenerator, Generator.materialize, Generator.new, homonymArena, Arena.get?,
    Block.successors, Transfer.successors, lowerCode, lowerInstruction, constantInstruction,
    ClassImage.intern, ConstantPool.intern, key?_ofMethod, kindOf, MethodRef.text, homonymMethod,
    Instruction.isReturn, plainInstruction, encode, encodeOperands, bigEndian, Except.mapError,
    endsWithReturn, Block.isExit, Transfer.isExit, ClassImage.new, ConstantPool.empty,
    Opcode.widths, Opcode.toByte, ClassImage.constants, homonymRoutine]

theorem homonym_linearized :
    linearize homonymGenerator homonymArena 0 = .ok homonymRoutine.code := by
  have layout : homonymArena.layout 0 = [0] := by
    simp [Arena.layout, Arena.layoutFrom, homonymArena, Placement.start, Arena.get?, Placement.place]
  simp only [linearize, layout]
  simp [placedBlocks, homonym_materialized.1, homonymArena, Arena.get?, joinBlocks, bind, Except.bind,
    encodeTransfer]

def homonymImage : ClassImage :=
  { ClassImage.new "Main" with
    pool := { ConstantPool.empty with entries := #[.ofMethod homonymMethod] } }

def homonymFrame : Frame :=
  { image := homonymImage, routine := homonymRoutine, locals := #[.object 0], stack := [], offset := 0
    keepsResult := false }

def homonymWorld : World :=
  { World.new (fun _ => 0) none with heap := #[Object.new homonymClass] }

/-- The graph calls two methods, and its code calls the first of them twice. -/
theorem homonyms_linearize_apart :
    Generated homonymArena homonymGenerator ∧
      linearize homonymGenerator homonymArena 0 = .ok homonymRoutine.code ∧
      homonymGenerator.image.constants = homonymImage.constants ∧
      interpret homonymMachine homonymArena 11 0 homonymFrame homonymWorld =
        some (.returned (.int 2), homonymWorld) ∧
      homonymMachine.settle 9 (.running homonymFrame [] homonymWorld) =
        some (.returned (.int 1), homonymWorld) := by
  have generated : Generated homonymArena homonymGenerator := .materialize _ 0 (.start _ _)
  exact ⟨generated, homonym_linearized, homonym_materialized.2, rfl, rfl⟩

end Assay.Assembly
