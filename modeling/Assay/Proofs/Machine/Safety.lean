import Assay.Proofs.Machine.Structure

/-!
Calls on a machine whose program is structured end with a value or an error, if they end. Between two
instructions each active call is at an instruction of its routine, or at the end of its code. What the
instructions find outside the frames does not matter for this, so it may change before each of them.
-/

namespace Assay.Bytecode

/-- No routine has more locals than memory can have places for. -/
def Program.FitsMemory (program : Program) : Prop :=
  ∀ image ∈ program.classes, ∀ routine ∈ image.routines,
    routine.locals ≤ Machine.Frame.maxLocals

theorem decodeAt_size (code : Array UInt8) : decodeAt code code.size = .finished := by
  simp only [decodeAt, Array.getElem?_size]

theorem Opcode.isJump_widths {opcode : Opcode} (isJump : opcode.isJump = true) :
    opcode.widths.length = 1 := by
  cases opcode <;> revert isJump <;> decide

end Assay.Bytecode

namespace Assay.Machine

open Bytecode

section Frames

variable {program : Program} {frame : Frame}

structure Frame.Aligned (program : Program) (frame : Frame) : Prop where
  image : frame.image ∈ program.classes
  routine : frame.routine ∈ frame.image.routines
  offset : ∃ listing, frame.routine.Structured listing ∧
    Starts frame.routine.code listing frame.offset

def Frame.Fetches (frame : Frame) : Prop :=
  (frame.offset = frame.routine.code.size ∧
    decodeAt frame.routine.code frame.offset = .finished) ∨
  ∃ opcode operands next,
    decodeAt frame.routine.code frame.offset = .instruction opcode operands next ∧
    operands.length = opcode.widths.length ∧ next ≤ frame.routine.code.size

theorem Frame.Aligned.fetches (aligned : frame.Aligned program) : frame.Fetches := by
  obtain ⟨listing, structured, isEnd | ⟨located, isLocated, isHere⟩⟩ := aligned.offset
  · exact .inl ⟨isEnd, isEnd ▸ decodeAt_size _⟩
  · obtain ⟨next, decoded, starts⟩ := structured.decodes.decodeAt isLocated
    rw [isHere] at decoded
    exact .inr ⟨_, _, next, decoded, decodeAt_operands decoded,
      starts.le_size structured.decodes⟩

theorem Frame.Aligned.enter (structured : program.Structured) {image : ClassImage}
    {routine : Routine} (isImage : image ∈ program.classes) (isRoutine : routine ∈ image.routines)
    (args : List Value) : (Frame.enter image routine args).Aligned program := by
  obtain ⟨listing, isListing⟩ := (structured image isImage).routines routine isRoutine
  exact ⟨isImage, isRoutine, listing, isListing, isListing.decodes.starts⟩

theorem Stays.aligned {next : Frame}
    (stays : Stays frame (fun offset => Frame.Aligned program { frame with offset }) next) :
    next.Aligned program := by
  obtain ⟨sameImage, sameRoutine, isImage, isRoutine, offset⟩ := stays
  exact ⟨sameImage ▸ isImage, by rw [sameImage, sameRoutine]; exact isRoutine,
    by rw [sameRoutine]; exact offset⟩

theorem Confined.of_offset {allowed : Nat → Prop} {offset : Nat}
    {result : Except Fault (World × Effect)}
    (confined : Confined program { frame with offset } allowed result) :
    Confined program frame allowed result := by
  cases confined with
  | fault cause => exact .fault cause
  | proceed world stays => exact .proceed world ⟨stays.image, stays.routine, stays.offset⟩
  | call world args stays isImage isRoutine =>
      exact .call world args ⟨stays.image, stays.routine, stays.offset⟩ isImage isRoutine
  | finish world value => exact .finish world value

theorem Frame.Aligned.advance_confined (structured : program.Structured)
    (aligned : frame.Aligned program) (world : World) :
    Confined program frame (fun offset => Frame.Aligned program { frame with offset })
      (frame.advance program world) := by
  obtain ⟨listing, isListing, starts⟩ := aligned.offset
  have alignedAt : ∀ offset, Starts frame.routine.code listing offset →
      Frame.Aligned program { frame with offset } :=
    fun offset starts => ⟨aligned.image, aligned.routine, listing, isListing, starts⟩
  unfold Frame.advance
  rcases starts with isEnd | ⟨located, isLocated, isHere⟩
  · rw [isEnd, decodeAt_size]
    exact .fault _
  · obtain ⟨next, decoded, behind⟩ := isListing.decodes.decodeAt isLocated
    have target : located.opcode.isJump = true →
        Frame.Aligned program { frame with offset := located.operands.headD 0 } := by
      intro isJump
      have single : located.operands.length = 1 := by
        rw [decodeAt_operands decoded, Opcode.isJump_widths isJump]
      obtain ⟨target, only⟩ := List.length_eq_one_iff.mp single
      refine alignedAt _ (isListing.jumps located isLocated isJump _ ?_)
      simp only [only, List.headD_cons, List.mem_singleton]
    have named : NamesMethods { frame with offset := next } :=
      namesMethods_of_structured (structured _ aligned.image)
    rw [← isHere, decoded]
    exact (execute_confined named _ _ (alignedAt next behind) target).of_offset

end Frames

section Runs

variable {machine : Machine}

/-- The states in which a machine has not broken down: the call has ended with a value or an error, or
there are no more active calls than allowed and each of them is aligned. -/
inductive State.Orderly (machine : Machine) : State → Prop
  | returned (value : Value) (world : World) : Orderly machine (.stopped (.returned value) world)
  | failed (failure : Failure) (world : World) : Orderly machine (.stopped (.failed failure) world)
  | running {frame : Frame} {callers : List Frame} (world : World) :
      (frame :: callers).length ≤ machine.frameLimit →
      (∀ active ∈ frame :: callers, active.Aligned machine.program) →
      Orderly machine (.running frame callers world)

theorem State.Orderly.ended {outcome : Outcome} {world : World}
    (orderly : (State.stopped outcome world).Orderly machine) :
    (∃ value, outcome = .returned value) ∨ ∃ failure, outcome = .failed failure := by
  cases orderly with
  | returned value => exact .inl ⟨value, rfl⟩
  | failed failure => exact .inr ⟨failure, rfl⟩

theorem enterCall_orderly (structured : machine.program.Structured)
    (fits : machine.program.FitsMemory) {callers : List Frame}
    (waiting : ∀ caller ∈ callers, caller.Aligned machine.program) (world : World)
    {image : ClassImage} {routine : Routine} (isImage : image ∈ machine.program.classes)
    (isRoutine : routine ∈ image.routines) (args : List Value) :
    (machine.enterCall callers world image routine args).Orderly machine := by
  have place : Frame.hasPlace routine = true :=
    decide_eq_true (Int.le_trans (fits image isImage routine isRoutine) (Int.le_max_right _ _))
  unfold enterCall
  split
  · exact .failed _ _
  · split
    · exact .failed _ _
    · rename_i room
      refine .running world (Nat.not_le.mp room) fun active isActive => ?_
      rcases List.mem_cons.mp isActive with rfl | isCaller
      · exact Frame.Aligned.enter structured isImage isRoutine args
      · exact waiting active isCaller

theorem deliver_orderly {callers : List Frame} (within : callers.length ≤ machine.frameLimit)
    (waiting : ∀ caller ∈ callers, caller.Aligned machine.program) (value : Value) (world : World) :
    (deliver value world callers).Orderly machine := by
  cases callers with
  | nil => exact .returned value world
  | cons caller callers =>
      refine .running world within fun active isActive => ?_
      rcases List.mem_cons.mp isActive with rfl | isCaller
      · have aligned := waiting caller List.mem_cons_self
        split
        · exact ⟨aligned.image, aligned.routine, aligned.offset⟩
        · exact aligned
      · exact waiting active (List.mem_cons_of_mem _ isCaller)

theorem step_orderly (structured : machine.program.Structured) (fits : machine.program.FitsMemory)
    {frame : Frame} {callers : List Frame} {world : World}
    (orderly : (State.running frame callers world).Orderly machine) (other : World) :
    (machine.step (.running frame callers other)).Orderly machine := by
  obtain ⟨within, aligned⟩ : (frame :: callers).length ≤ machine.frameLimit ∧
      ∀ active ∈ frame :: callers, active.Aligned machine.program := by
    cases orderly with
    | running _ within aligned => exact ⟨within, aligned⟩
  have waiting : ∀ caller ∈ callers, caller.Aligned machine.program :=
    fun caller isCaller => aligned caller (List.mem_cons_of_mem _ isCaller)
  have confined := (aligned frame List.mem_cons_self).advance_confined structured other
  rw [step_running]
  generalize frame.advance machine.program other = result at confined
  cases confined with
  | fault cause => exact .failed _ _
  | proceed after stays =>
      refine .running after within fun active isActive => ?_
      rcases List.mem_cons.mp isActive with rfl | isCaller
      · exact stays.aligned
      · exact waiting active isCaller
  | call after args stays isImage isRoutine =>
      refine enterCall_orderly structured fits (fun caller isCaller => ?_) after isImage isRoutine args
      rcases List.mem_cons.mp isCaller with rfl | isOuter
      · exact stays.aligned
      · exact waiting caller isOuter
  | finish after value => exact deliver_orderly (Nat.le_of_succ_le within) waiting value after

/-- The states that a machine can come to if the heap, the output and the clock may be any others
before each step. -/
inductive Reaches (machine : Machine) (start : State) : State → Prop
  | start : Reaches machine start start
  | step {frame : Frame} {callers : List Frame} {world : World} (other : World) :
      Reaches machine start (.running frame callers world) →
      Reaches machine start (machine.step (.running frame callers other))

theorem Reaches.run {start state : State} (reached : machine.Reaches start state) (fuel : Nat) :
    machine.Reaches start (machine.run fuel state) := by
  induction fuel generalizing state with
  | zero => exact reached
  | succ fuel ih =>
      cases state with
      | running frame callers world => exact ih (reached.step world)
      | stopped outcome world => exact reached

theorem reaches_orderly (structured : machine.program.Structured)
    (fits : machine.program.FitsMemory) {start state : State} (orderly : start.Orderly machine)
    (reached : machine.Reaches start state) : state.Orderly machine := by
  induction reached with
  | start => exact orderly
  | step other _ ih => exact step_orderly structured fits ih other

theorem call_orderly (structured : machine.program.Structured) (fits : machine.program.FitsMemory)
    (world : World) (owner name : String) (args : List Value) :
    (machine.call world owner name args).Orderly machine := by
  unfold call
  split
  · exact .failed _ _
  · rename_i found
    obtain ⟨isImage, isRoutine⟩ := Program.lookup_mem found
    exact enterCall_orderly structured fits (by simp) world isImage isRoutine args

/-- A machine does not break down on a structured program that fits into memory, whatever the types of
its values are: a call that ends returns a value or an error. On the way, in any heap, with any output and
any clock, each active call is at an instruction or at the end of its code, the innermost one reads a
complete instruction, and there are no more active calls than allowed. -/
theorem call_never_crashes (structured : machine.program.Structured)
    (fits : machine.program.FitsMemory) (world : World) (owner name : String) (args : List Value) :
    (∀ fuel outcome after,
      machine.settle fuel (machine.call world owner name args) = some (outcome, after) →
      (∃ value, outcome = .returned value) ∨ ∃ failure, outcome = .failed failure) ∧
    (∀ state, machine.Reaches (machine.call world owner name args) state →
      state.Orderly machine) ∧
    ∀ frame callers after,
      machine.Reaches (machine.call world owner name args) (.running frame callers after) →
      frame.Fetches := by
  have orderly : ∀ state, machine.Reaches (machine.call world owner name args) state →
      state.Orderly machine := fun state reached =>
    reaches_orderly structured fits (call_orderly structured fits world owner name args) reached
  refine ⟨fun fuel outcome after settled => ?_, orderly, fun frame callers after reached => ?_⟩
  · rw [settle_eq_some_iff] at settled
    have ended := orderly _ (Reaches.start.run fuel)
    rw [settled] at ended
    exact ended.ended
  · cases orderly _ reached with
    | running _ _ aligned => exact (aligned frame List.mem_cons_self).fetches

end Runs

def soleMachine (constants : Array Constant) (routine : Routine) : Machine :=
  .new { id := "", entry := { owner := "Sole", routine := routine.name }
         classes := [{ name := "Sole", fields := [], pool := .ofEntries constants
                       routines := #[routine] }] } 0

theorem soleMachine_structured {constants : Array Constant} {routine : Routine}
    {listing : List Located} (structured : routine.Structured listing)
    (methods : ∀ constant ∈ constants, constant.kind = .method →
      ∀ method, constant.method = some method → 0 ≤ method.args) :
    (soleMachine constants routine).program.Structured := by
  intro image isImage
  obtain rfl := List.mem_singleton.mp isImage
  refine ⟨fun other isRoutine => ?_, methods⟩
  obtain rfl := Array.mem_singleton.mp isRoutine
  exact ⟨listing, structured⟩

def spinning : Routine :=
  { name := "spin", isStatic := true, params := 0, locals := 0, returns := .void
    code := #[18, 0, 0, 19, 0, 0] }

def spinConstants : Array Constant :=
  #[.ofMethod { owner := "Sole", name := "spin", args := 0, returns := .void }]

theorem spinning_structured : (soleMachine spinConstants spinning).program.Structured := by
  have isListing : spinning.Structured [⟨0, .invokeStatic, [0]⟩, ⟨3, .jump, [0]⟩] :=
    ⟨.step rfl (.step rfl .finish), by decide⟩
  refine soleMachine_structured isListing fun constant isConstant _ method isMethod => ?_
  obtain rfl := Array.mem_singleton.mp isConstant
  cases isMethod
  exact Int.le_refl 0

theorem spinning_fitsMemory : (soleMachine spinConstants spinning).program.FitsMemory := by
  intro image isImage routine isRoutine
  obtain rfl := List.mem_singleton.mp isImage
  obtain rfl := Array.mem_singleton.mp isRoutine
  decide

theorem call_never_crashes_spinning :
    let machine := soleMachine spinConstants spinning
    let world : World := .new (fun _ => 0) none
    machine.program.Structured ∧ machine.program.FitsMemory ∧
    (∀ fuel outcome after,
      machine.settle fuel (machine.call world "Sole" "spin" []) = some (outcome, after) →
      (∃ value, outcome = .returned value) ∨ ∃ failure, outcome = .failed failure) ∧
    (∀ state, machine.Reaches (machine.call world "Sole" "spin" []) state →
      state.Orderly machine) ∧
    ∀ frame callers after,
      machine.Reaches (machine.call world "Sole" "spin" []) (.running frame callers after) →
      frame.Fetches :=
  ⟨spinning_structured, spinning_fitsMemory,
    call_never_crashes spinning_structured spinning_fitsMemory _ "Sole" "spin" []⟩

def wide : Routine :=
  { name := "wide", isStatic := true, params := 0, locals := 2 ^ 62, returns := .void
    code := #[27] }

/-- Code that is structured is not enough: the locals of a routine need a place. -/
theorem call_crashes_on_wide :
    let machine := soleMachine #[] wide
    let world : World := .new (fun _ => 0) none
    machine.program.Structured ∧
      machine.settle 1 (machine.call world "Sole" "wide" []) = some (.crashed, world) := by
  have isListing : wide.Structured [⟨0, .ret, []⟩] := ⟨.step rfl .finish, by decide⟩
  exact ⟨soleMachine_structured isListing (by simp), rfl⟩

end Assay.Machine
