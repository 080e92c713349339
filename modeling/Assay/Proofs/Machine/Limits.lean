import Assay.Proofs.Machine.Steps

/-!
Limits cut runs short and do nothing else. A run that is not stopped by the limit of frames or of the
output goes the same way, step by step, under wider limits.
-/

namespace Assay.Machine

open Bytecode

structure World.Loosens (tight loose : World) : Prop where
  heap : loose.heap = tight.heap
  output : loose.output = tight.output
  clock : loose.clock = tight.clock
  readings : loose.readings = tight.readings
  limit : ∀ larger, loose.outputLimit = some larger →
    ∃ smaller, tight.outputLimit = some smaller ∧ smaller ≤ larger

namespace World

variable {tight loose : World}

theorem Loosens.accepts (loosens : tight.Loosens loose) {text : String}
    (accepts : tight.accepts text = true) : loose.accepts text = true := by
  cases limited : loose.outputLimit with
  | none => simp only [World.accepts, limited]
  | some larger =>
      obtain ⟨smaller, isSmaller, bound⟩ := loosens.limit larger limited
      simp only [World.accepts, isSmaller, decide_eq_true_eq] at accepts
      simp only [World.accepts, limited, loosens.output, decide_eq_true_eq]
      omega

theorem loosens_unlimited (world : World) : world.Loosens { world with outputLimit := none } :=
  ⟨rfl, rfl, rfl, rfl, by simp⟩

end World

inductive Agrees : Except Fault (World × Effect) → Except Fault (World × Effect) → Prop
  | cut (other : Except Fault (World × Effect)) : Agrees (.error .outputLimit) other
  | fault (cause : Fault) : Agrees (.error cause) (.error cause)
  | done {tight loose : World} (effect : Effect) : tight.Loosens loose →
      Agrees (.ok (tight, effect)) (.ok (loose, effect))

theorem Agrees.bind {α : Type} {first : Except Fault α}
    {tight loose : α → Except Fault (World × Effect)}
    (rest : ∀ value, Agrees (tight value) (loose value)) :
    Agrees (first >>= tight) (first >>= loose) := by
  cases first with
  | error cause => exact .fault cause
  | ok value => exact rest value

section Instructions

variable {tight loose : World} {program : Program} {frame : Frame}

theorem write?_agrees (loosens : tight.Loosens loose) (text : String) (next : Frame) :
    Agrees
      (match tight.write? text with
        | some written => .ok (written, .proceed next)
        | none => .error .outputLimit)
      (match loose.write? text with
        | some written => .ok (written, .proceed next)
        | none => .error .outputLimit) := by
  by_cases accepts : tight.accepts text = true
  · simp only [World.write?, accepts, loosens.accepts accepts, if_true]
    refine .done _ { loosens with output := ?_ }
    simp only [loosens.output]
  · simp only [World.write?, accepts]
    exact .cut _

theorem jumpTo_agrees (loosens : tight.Loosens loose) (next : Frame) (target : Nat) :
    Agrees (do pure (tight, ← jumpTo next target)) (do pure (loose, ← jumpTo next target)) :=
  Agrees.bind fun effect => .done effect loosens

theorem newObject_agrees (loosens : tight.Loosens loose) (index : Nat) :
    Agrees (newObject program frame tight index) (newObject program frame loose index) := by
  refine Agrees.bind fun name => ?_
  cases program.class? name with
  | none => exact .fault _
  | some image =>
      have sameAddress : loose.heap.size = tight.heap.size := by rw [loosens.heap]
      simp only [World.allocate, sameAddress]
      refine .done _ { loosens with heap := ?_ }
      simp only [loosens.heap]

theorem getField_agrees (loosens : tight.Loosens loose) (index : Nat) :
    Agrees (getField frame tight index) (getField frame loose index) := by
  refine Agrees.bind fun name => Agrees.bind fun ⟨address, rest⟩ => ?_
  have sameObject : loose.object? address = tight.object? address := by
    simp only [World.object?, loosens.heap]
  simp only [sameObject]
  cases ((tight.object? address).getD default).get? name with
  | none => exact .fault _
  | some value => exact .done _ loosens

theorem setField_agrees (loosens : tight.Loosens loose) (index : Nat) :
    Agrees (setField frame tight index) (setField frame loose index) := by
  refine Agrees.bind fun name => Agrees.bind fun ⟨value, rest⟩ => Agrees.bind fun ⟨address, rest⟩ => ?_
  have sameObject : loose.object? address = tight.object? address := by
    simp only [World.object?, loosens.heap]
  simp only [sameObject]
  cases ((tight.object? address).getD default).get? name with
  | none => exact .fault _
  | some old =>
      refine .done _ { loosens with heap := ?_ }
      simp only [World.setField, loosens.heap]

theorem printValue_agrees (loosens : tight.Loosens loose) :
    Agrees (printValue frame tight) (printValue frame loose) := by
  refine Agrees.bind fun ⟨value, rest⟩ => ?_
  simp only
  cases value.printed? with
  | none => exact .fault _
  | some text => exact write?_agrees loosens text rest

theorem dispatch_agrees (loosens : tight.Loosens loose) (method : MethodRef) (args : List Value)
    (receiver : Value) :
    Agrees (dispatch program frame tight method args receiver)
      (dispatch program frame loose method args receiver) := by
  cases receiver with
  | text text =>
      simp only [dispatch]
      split
      · exact write?_agrees loosens text frame
      · exact .fault _
  | object address =>
      have sameObject : loose.object? address = tight.object? address := by
        simp only [World.object?, loosens.heap]
      simp only [dispatch, sameObject]
      cases program.lookup ((tight.object? address).getD default).owner method.name with
      | error problem => exact .fault _
      | ok found =>
          obtain ⟨image, routine⟩ := found
          simp only
          split
          · exact .fault _
          · exact .done _ loosens
  | _ => exact .fault _

theorem invokeVirtual_agrees (loosens : tight.Loosens loose) (index : Nat) :
    Agrees (invokeVirtual program frame tight index) (invokeVirtual program frame loose index) := by
  refine Agrees.bind fun method => Agrees.bind fun popped => ?_
  cases popped with
  | none => exact .done _ loosens
  | some popped =>
      obtain ⟨args, rest⟩ := popped
      exact Agrees.bind fun ⟨receiver, rest⟩ => dispatch_agrees loosens method args receiver

theorem invokeStatic_agrees (loosens : tight.Loosens loose) (index : Nat) :
    Agrees (invokeStatic program frame tight index) (invokeStatic program frame loose index) := by
  refine Agrees.bind fun method => ?_
  cases program.lookup method.owner method.name with
  | error problem => exact .fault _
  | ok found =>
      obtain ⟨image, routine⟩ := found
      simp only
      split
      · exact .fault _
      · refine Agrees.bind fun popped => ?_
        cases popped with
        | none => exact .done _ loosens
        | some popped => exact .done _ loosens

theorem execute_agrees (loosens : tight.Loosens loose) (opcode : Opcode) (operand : Nat) :
    Agrees (execute program frame tight opcode operand)
      (execute program frame loose opcode operand) := by
  cases opcode with
  | new => exact newObject_agrees loosens operand
  | getField => exact getField_agrees loosens operand
  | setField => exact setField_agrees loosens operand
  | print => exact printValue_agrees loosens
  | invokeVirtual => exact invokeVirtual_agrees loosens operand
  | invokeStatic => exact invokeStatic_agrees loosens operand
  | nanoTime =>
      have sameReading : loose.clock loose.readings = tight.clock tight.readings := by
        rw [loosens.clock, loosens.readings]
      simp only [execute, World.readClock, sameReading]
      refine .done _ { loosens with readings := ?_ }
      simp only [loosens.readings]
  | pushConstant =>
      exact Agrees.bind fun constant => Agrees.bind fun value => .done _ loosens
  | pop | dup | neg | intToFloat | add | sub | mul => exact Agrees.bind fun popped => .done _ loosens
  | load =>
      simp only [execute]
      split
      · exact .done _ loosens
      · exact .fault _
  | store =>
      simp only [execute]
      split
      · exact Agrees.bind fun popped => .done _ loosens
      · exact .fault _
  | floatDiv =>
      refine Agrees.bind fun ⟨right, rest⟩ => Agrees.bind fun ⟨left, rest⟩ => ?_
      simp only
      split
      · exact .fault _
      · exact .done _ loosens
  | jump => exact jumpTo_agrees loosens frame operand
  | jumpIfTrue =>
      refine Agrees.bind fun ⟨value, rest⟩ => ?_
      simp only
      split
      · exact jumpTo_agrees loosens rest operand
      · exact .done _ loosens
  | jumpIfEq | jumpIfNe | jumpIfLt | jumpIfLe | jumpIfGt | jumpIfGe =>
      refine Agrees.bind fun ⟨⟨left, right⟩, rest⟩ => ?_
      simp only
      split
      · exact jumpTo_agrees loosens rest operand
      · exact .done _ loosens
  | ret =>
      simp only [execute]
      split
      · exact .done _ loosens
      · exact .fault _
  | retValue =>
      simp only [execute]
      split
      · exact .fault _
      · exact Agrees.bind fun popped => .done _ loosens

theorem advance_agrees (loosens : tight.Loosens loose) :
    Agrees (frame.advance program tight) (frame.advance program loose) := by
  unfold Frame.advance
  split
  · exact .fault _
  · exact .done _ loosens
  · exact .fault _
  · exact execute_agrees loosens _ _

end Instructions

/-- States that are the same, except that the second one is in a world that accepts more output. -/
inductive State.Loosens : State → State → Prop
  | running (frame : Frame) (callers : List Frame) {tight loose : World} : tight.Loosens loose →
      Loosens (.running frame callers tight) (.running frame callers loose)
  | stopped (outcome : Outcome) {tight loose : World} : tight.Loosens loose →
      Loosens (.stopped outcome tight) (.stopped outcome loose)

theorem State.Loosens.running_left {tight : State} {frame : Frame} {callers : List Frame}
    {loose : World} (loosens : tight.Loosens (.running frame callers loose)) :
    ∃ world, tight = .running frame callers world ∧ world.Loosens loose := by
  cases loosens with
  | running _ _ same => exact ⟨_, rfl, same⟩

def State.IsCut : State → Prop
  | .stopped (.failed failure) _ => failure.cause = .tooManyFrames ∨ failure.cause = .outputLimit
  | _ => False

section Runs

variable {machine : Machine} {limit : Nat} {tight loose : State}

def withFrameLimit (machine : Machine) (limit : Nat) : Machine := { machine with frameLimit := limit }

theorem enterCall_loosens (wider : machine.frameLimit ≤ limit) {tight loose : World}
    (loosens : tight.Loosens loose) (callers : List Frame) (image : ClassImage) (routine : Routine)
    (args : List Value) :
    (machine.enterCall callers tight image routine args).IsCut ∨
      (machine.enterCall callers tight image routine args).Loosens
        ((machine.withFrameLimit limit).enterCall callers loose image routine args) := by
  by_cases counted : (args.length : Int) = routine.params
  · by_cases full : machine.frameLimit ≤ callers.length
    · refine .inl ?_
      simp only [enterCall, counted, ne_eq, not_true_eq_false, if_false, full, if_true]
      exact .inl rfl
    · by_cases stillFull : limit ≤ callers.length
      · exact absurd (Nat.le_trans wider stillFull) full
      · refine .inr ?_
        simp only [enterCall, withFrameLimit, counted, ne_eq, not_true_eq_false, if_false, full,
          stillFull]
        split
        · exact .running _ _ loosens
        · exact .stopped _ loosens
  · refine .inr ?_
    simp only [enterCall, withFrameLimit, counted, ne_eq, not_false_eq_true, if_true]
    exact .stopped _ loosens

theorem deliver_loosens {tight loose : World} (loosens : tight.Loosens loose) (value : Value)
    (callers : List Frame) : (deliver value tight callers).Loosens (deliver value loose callers) := by
  cases callers with
  | nil => exact .stopped _ loosens
  | cons caller rest => exact .running _ _ loosens

theorem step_loosens (wider : machine.frameLimit ≤ limit) (loosens : tight.Loosens loose) :
    (machine.step tight).IsCut ∨
      (machine.step tight).Loosens ((machine.withFrameLimit limit).step loose) := by
  cases loosens with
  | stopped outcome same => exact .inr (.stopped outcome same)
  | @running frame callers before after same =>
      rw [step_running, step_running]
      have agrees : Agrees (frame.advance machine.program before)
          (frame.advance machine.program after) := advance_agrees same
      change _ ∨ State.Loosens _ ((machine.withFrameLimit limit).absorb frame callers after
        (frame.advance machine.program after))
      -- The limit of frames matters only for calls, which come after the instruction itself.
      generalize frame.advance machine.program before = first,
        frame.advance machine.program after = second at agrees ⊢
      cases agrees with
      | cut other => exact .inl (.inr rfl)
      | fault cause => exact .inr (.stopped _ same)
      | done effect later =>
          cases effect with
          | proceed frame => exact .inr (.running _ _ later)
          | call caller image routine args =>
              exact enterCall_loosens wider later (caller :: callers) image routine args
          | finish value => exact .inr (deliver_loosens later value callers)
          | crash => exact .inr (.stopped _ later)

theorem run_of_isCut (cut : tight.IsCut) (fuel : Nat) : machine.run fuel tight = tight := by
  cases tight with
  | running frame callers world => exact absurd cut id
  | stopped outcome world => exact run_stopped fuel outcome world

theorem run_loosens (wider : machine.frameLimit ≤ limit) (loosens : tight.Loosens loose)
    (fuel : Nat) :
    (machine.run fuel tight).IsCut ∨
      (machine.run fuel tight).Loosens ((machine.withFrameLimit limit).run fuel loose) := by
  induction fuel generalizing tight loose with
  | zero => exact .inr loosens
  | succ fuel ih =>
      rw [run_succ, run_succ]
      rcases step_loosens wider loosens with cut | later
      · rw [run_of_isCut cut]
        exact .inl cut
      · exact ih later

theorem start_loosens (wider : machine.frameLimit ≤ limit) {tight loose : World}
    (loosens : tight.Loosens loose) (request : Request) :
    (machine.start tight request).IsCut ∨
      (machine.start tight request).Loosens ((machine.withFrameLimit limit).start loose request) := by
  have calls : ∀ owner routine args, (machine.call tight owner routine args).IsCut ∨
      (machine.call tight owner routine args).Loosens
        ((machine.withFrameLimit limit).call loose owner routine args) := by
    intro owner routine args
    have sameProgram : (machine.withFrameLimit limit).program = machine.program := rfl
    simp only [call, sameProgram]
    cases machine.program.lookup owner routine with
    | error problem => exact .inr (.stopped _ loosens)
    | ok found => exact enterCall_loosens wider loosens [] found.1 found.2 args
  cases request with
  | run args => exact calls _ _ _
  | call owner routine args => exact calls owner routine args

theorem run_loosens_before (wider : machine.frameLimit ≤ limit) (loosens : tight.Loosens loose)
    {fuel steps : Nat} {value : Value} {after : World}
    (returned : machine.run fuel tight = .stopped (.returned value) after) (early : steps ≤ fuel) :
    (machine.run steps tight).Loosens ((machine.withFrameLimit limit).run steps loose) := by
  refine (run_loosens wider loosens steps).resolve_left fun cut => ?_
  obtain ⟨more, rfl⟩ := Nat.exists_eq_add_of_le early
  rw [run_add, run_of_isCut cut] at returned
  rw [returned] at cut
  exact cut

theorem run_returned_loosens (wider : machine.frameLimit ≤ limit) (loosens : tight.Loosens loose)
    {fuel : Nat} {value : Value} {after : World}
    (returned : machine.run fuel tight = .stopped (.returned value) after) :
    ∃ later, (machine.withFrameLimit limit).run fuel loose = .stopped (.returned value) later ∧
      after.Loosens later := by
  have same := run_loosens_before wider loosens returned (Nat.le_refl fuel)
  rw [returned] at same
  generalize (machine.withFrameLimit limit).run fuel loose = result at same ⊢
  cases same with
  | stopped _ same => exact ⟨_, rfl, same⟩

end Runs

end Assay.Machine
