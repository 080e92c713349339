import Assay.Proofs.Machine.Reuse

/-!
By how much an instruction changes the height of the operand stack. The opcode and the constant that it
names decide, whatever the values are and whatever a called routine does, with one exception: a string that
is to print itself leaves nothing, also if the method constant says that something is returned.
-/

namespace Assay.Bytecode

def MethodRef.rise (method : MethodRef) : Int :=
  (if method.returns = .void then 0 else 1) - method.args

/-- By how much an instruction changes the height, given the constant at its operand. Returns end the
frame. -/
def Opcode.rise (opcode : Opcode) (constant : Option Constant) : Int :=
  let called := ((constant.bind Constant.method).map MethodRef.rise).getD 0
  match opcode with
  | .pushConstant | .dup | .load | .new | .nanoTime => 1
  | .getField | .neg | .intToFloat | .jump => 0
  | .pop | .store | .add | .sub | .mul | .floatDiv | .print | .jumpIfTrue => -1
  | .setField | .jumpIfEq | .jumpIfNe | .jumpIfLt | .jumpIfLe | .jumpIfGt | .jumpIfGe => -2
  | .invokeStatic => called
  | .invokeVirtual => called - 1
  | .ret | .retValue => 0

end Assay.Bytecode

namespace Assay.Machine

open Bytecode

section Instructions

variable {program : Program} {frame rest : Frame} {world : World} {rise : Int}

inductive Raises (frame : Frame) (rise : Int) : Except Fault (World × Effect) → Prop
  | fault (cause : Fault) : Raises frame rise (.error cause)
  | proceed {after : World} {next : Frame} :
      (next.stack.length : Int) = frame.stack.length + rise →
      Raises frame rise (.ok (after, .proceed next))
  | call {after : World} {caller : Frame} (image : ClassImage) (routine : Routine)
      (args : List Value) :
      (caller.stack.length : Int) + (if caller.keepsResult then 1 else 0) =
        frame.stack.length + rise →
      Raises frame rise (.ok (after, .call caller image routine args))
  | finish (after : World) (value : Value) : Raises frame rise (.ok (after, .finish value))
  | crash (after : World) : Raises frame rise (.ok (after, .crash))

theorem Raises.bind {α : Type} {first : Except Fault α} {second : α → Except Fault (World × Effect)}
    (rest : ∀ value, first = .ok value → Raises frame rise (second value)) :
    Raises frame rise (first >>= second) := by
  cases first with
  | error cause => exact .fault cause
  | ok value => exact rest value rfl

theorem Raises.of_offset (offset : Nat) {result : Except Fault (World × Effect)}
    (raises : Raises { frame with offset } rise result) : Raises frame rise result := by
  cases raises with
  | fault cause => exact .fault cause
  | proceed height => exact .proceed height
  | call image routine args height => exact .call image routine args height
  | finish after value => exact .finish after value
  | crash after => exact .crash after

theorem Raises.write {text : String} (height : (rest.stack.length : Int) = frame.stack.length + rise) :
    Raises frame rise
      (match world.write? text with
        | some written => .ok (written, .proceed rest)
        | none => .error .outputLimit) := by
  split
  · exact .proceed height
  · exact .fault _

theorem Raises.jumpTo (target : Nat) (height : (rest.stack.length : Int) = frame.stack.length + rise) :
    Raises frame rise (do pure (world, ← jumpTo rest target)) := by
  refine Raises.bind fun effect jumped => ?_
  unfold Machine.jumpTo at jumped
  split at jumped
  · cases jumped
  · cases jumped
    exact .proceed height

theorem Raises.callEffect {caller : Frame} (method : MethodRef) (image : ClassImage) (routine : Routine)
    (args : List Value)
    (height : (caller.stack.length : Int) + method.args + method.rise = frame.stack.length + rise) :
    Raises frame rise (.ok (world, callEffect caller method image routine args)) := by
  refine .call image routine args ?_
  simp only [decide_eq_true_eq, ite_not]
  unfold MethodRef.rise at height
  omega

theorem methodConstant_eq {index : Nat} {method : MethodRef}
    (found : frame.methodConstant index = .ok method) :
    frame.image.constants[index]?.bind Constant.method = some method := by
  obtain ⟨constant, present, isMethod⟩ := bind_eq_ok.mp found
  unfold Frame.constant at present
  split at present
  · rename_i entry isEntry
    cases present
    rw [isEntry, Option.bind_some]
    split at isMethod
    · rename_i known
      cases isMethod
      exact known
    · cases isMethod
  · cases present

/-- A string prints itself, but the method constant says that this returns something. -/
def Frame.Unanswered (frame : Frame) (opcode : Opcode) (constant : Option Constant) : Prop :=
  opcode = .invokeVirtual ∧ ∃ method text stack, constant.bind Constant.method = some method ∧
    isOutput method = true ∧ method.returns ≠ .void ∧ frame.stack = .text text :: stack

theorem newObject_raises (index : Nat) :
    Raises frame 1 (newObject program frame world index) := by
  refine Raises.bind fun name _ => ?_
  cases program.class? name with
  | none => exact .fault _
  | some image => exact .proceed (by simp [Frame.push])

theorem getField_raises (index : Nat) : Raises frame 0 (getField frame world index) := by
  refine Raises.bind fun name _ => Raises.bind fun ⟨address, rest⟩ popped => ?_
  have length := popObject_length popped
  simp only
  split
  · exact .proceed (by simp only [Frame.push, List.length_cons]; omega)
  · exact .fault _

theorem setField_raises (index : Nat) : Raises frame (-2) (setField frame world index) := by
  refine Raises.bind fun name _ => Raises.bind fun ⟨value, middle⟩ first =>
    Raises.bind fun ⟨address, rest⟩ second => ?_
  have firstLength := pop_length first
  have secondLength := popObject_length second
  simp only
  split
  · exact .proceed (by omega)
  · exact .fault _

theorem printValue_raises : Raises frame (-1) (printValue frame world) := by
  refine Raises.bind fun ⟨value, rest⟩ popped => ?_
  have length := pop_length popped
  simp only
  split
  · exact .fault _
  · exact Raises.write (by omega)

theorem isOutput_args {method : MethodRef} (output : isOutput method = true) : method.args = 0 := by
  simp only [isOutput, Bool.and_eq_true, decide_eq_true_eq] at output
  exact output.2

theorem dispatch_raises {method : MethodRef} (args : List Value) {receiver : Value}
    (height : (rest.stack.length : Int) + method.args + 1 = frame.stack.length)
    (answered : ∀ text, receiver = .text text → isOutput method = true → method.returns = .void) :
    Raises frame (method.rise - 1) (dispatch program rest world method args receiver) := by
  cases receiver with
  | text text =>
      simp only [dispatch]
      split
      · rename_i output
        have none := isOutput_args output
        have void := answered text rfl output
        exact Raises.write (by simp only [MethodRef.rise, void, none, if_true] at height ⊢; omega)
      · exact .fault _
  | object address =>
      simp only [dispatch]
      split
      · exact .fault _
      · split
        · exact .fault _
        · exact Raises.callEffect method _ _ _ (by omega)
  | _ => exact .fault _

theorem invokeVirtual_raises {index : Nat}
    (answered : ¬frame.Unanswered .invokeVirtual frame.image.constants[index]?) :
    Raises frame (Opcode.invokeVirtual.rise frame.image.constants[index]?)
      (invokeVirtual program frame world index) := by
  refine Raises.bind fun method found => Raises.bind fun popped isPopped => ?_
  have constant := methodConstant_eq found
  simp only [Opcode.rise, constant, Option.map_some, Option.getD_some]
  cases popped with
  | none => exact .crash world
  | some popped =>
      obtain ⟨args, middle⟩ := popped
      obtain ⟨notNegative, -, stack⟩ := popArguments_stack isPopped
      have length := popArguments_length isPopped
      refine Raises.bind fun ⟨receiver, rest⟩ popsReceiver => ?_
      have restLength := pop_length popsReceiver
      have height : (rest.stack.length : Int) + method.args + 1 = frame.stack.length := by omega
      refine dispatch_raises args height fun text isText output => ?_
      obtain rfl : receiver = .text text := isText
      by_contra notVoid
      refine answered ⟨rfl, method, text, rest.stack, constant, output, notVoid, ?_⟩
      rw [isOutput_args output, Int.toNat_zero, List.drop_zero] at stack
      rw [← stack, pop_stack popsReceiver]

theorem invokeVirtual_unanswered {index : Nat}
    (unanswered : frame.Unanswered .invokeVirtual frame.image.constants[index]?) :
    Raises frame (-1) (invokeVirtual program frame world index) := by
  obtain ⟨-, method, text, stack, constant, output, -, top⟩ := unanswered
  refine Raises.bind fun other found => Raises.bind fun popped isPopped => ?_
  obtain rfl : method = other := by
    rw [methodConstant_eq found] at constant
    exact (Option.some.inj constant).symm
  cases popped with
  | none => exact .crash world
  | some popped =>
      obtain ⟨args, middle⟩ := popped
      obtain ⟨-, -, same⟩ := popArguments_stack isPopped
      rw [isOutput_args output, Int.toNat_zero, List.drop_zero] at same
      refine Raises.bind fun ⟨receiver, rest⟩ popsReceiver => ?_
      have popped := pop_stack popsReceiver
      rw [same, top, List.cons.injEq] at popped
      obtain ⟨rfl, rest⟩ := popped
      simp only [dispatch, output, if_true]
      exact Raises.write (by rw [top, rest, List.length_cons]; omega)

theorem invokeStatic_raises (index : Nat) :
    Raises frame (Opcode.invokeStatic.rise frame.image.constants[index]?)
      (invokeStatic program frame world index) := by
  refine Raises.bind fun method found => ?_
  simp only [Opcode.rise, methodConstant_eq found, Option.map_some, Option.getD_some]
  split
  · exact .fault _
  · split
    · exact .fault _
    · refine Raises.bind fun popped isPopped => ?_
      cases popped with
      | none => exact .crash world
      | some popped =>
          obtain ⟨args, rest⟩ := popped
          obtain ⟨notNegative, -, -⟩ := popArguments_stack isPopped
          have length := popArguments_length isPopped
          exact Raises.callEffect method _ _ _ (by omega)

theorem execute_raises (opcode : Opcode) (operand : Nat)
    (answered : ¬frame.Unanswered opcode frame.image.constants[operand]?) :
    Raises frame (opcode.rise frame.image.constants[operand]?)
      (execute program frame world opcode operand) := by
  cases opcode with
  | new => exact newObject_raises operand
  | getField => exact getField_raises operand
  | setField => exact setField_raises operand
  | print => exact printValue_raises
  | invokeVirtual => exact invokeVirtual_raises answered
  | invokeStatic => exact invokeStatic_raises operand
  | nanoTime => exact .proceed (by simp [Frame.push, Opcode.rise])
  | pushConstant =>
      exact Raises.bind fun constant _ => Raises.bind fun value _ =>
        .proceed (by simp [Frame.push, Opcode.rise])
  | pop =>
      refine Raises.bind ?_
      rintro ⟨value, rest⟩ popped
      have length := pop_length popped
      exact .proceed (by simp only [Opcode.rise]; omega)
  | dup =>
      refine Raises.bind ?_
      rintro ⟨value, rest⟩ popped
      have length := pop_length popped
      exact .proceed (by simp only [Frame.push, List.length_cons, Opcode.rise]; omega)
  | neg | intToFloat =>
      refine Raises.bind ?_
      rintro ⟨value, rest⟩ popped
      have length := popInt_length popped
      exact .proceed (by simp only [Frame.push, List.length_cons, Opcode.rise]; omega)
  | add | sub | mul =>
      refine Raises.bind ?_
      rintro ⟨values, rest⟩ popped
      have length := popInts_length popped
      exact .proceed (by simp only [Frame.push, List.length_cons, Opcode.rise]; omega)
  | load =>
      simp only [execute]
      split
      · exact .proceed (by simp [Frame.push, Opcode.rise])
      · exact .fault _
  | store =>
      simp only [execute]
      split
      · refine Raises.bind ?_
        rintro ⟨value, rest⟩ popped
        have length := pop_length popped
        exact .proceed (by simp only [Opcode.rise]; omega)
      · exact .fault _
  | floatDiv =>
      refine Raises.bind ?_
      rintro ⟨right, middle⟩ first
      refine Raises.bind ?_
      rintro ⟨left, rest⟩ second
      have firstLength := popFloat_length first
      have secondLength := popFloat_length second
      simp only
      split
      · exact .fault _
      · exact .proceed (by simp only [Frame.push, List.length_cons, Opcode.rise]; omega)
  | jump => exact Raises.jumpTo operand (by simp [Opcode.rise])
  | jumpIfTrue =>
      refine Raises.bind ?_
      rintro ⟨value, rest⟩ popped
      have length := popInt_length popped
      have height : (rest.stack.length : Int) = frame.stack.length + -1 := by omega
      simp only
      split
      · exact Raises.jumpTo operand height
      · exact .proceed height
  | jumpIfEq | jumpIfNe | jumpIfLt | jumpIfLe | jumpIfGt | jumpIfGe =>
      refine Raises.bind ?_
      rintro ⟨⟨left, right⟩, rest⟩ popped
      have length := popInts_length popped
      have height : (rest.stack.length : Int) = frame.stack.length + -2 := by omega
      simp only
      split
      · exact Raises.jumpTo operand height
      · exact .proceed height
  | ret =>
      simp only [execute]
      split
      · exact .finish _ _
      · exact .fault _
  | retValue =>
      simp only [execute]
      split
      · exact .fault _
      · exact Raises.bind fun popped _ => .finish _ _

end Instructions

section Runs

variable {machine : Machine} {frame later : Frame} {callers others : List Frame} {world after : World}

def State.Above (depth : Nat) : State → Prop
  | .running _ callers _ => depth < callers.length
  | .stopped _ _ => False

/-- The machine executes the next instruction of a frame, with the call that it makes if it makes one: it
comes to the frame `later`, below the calls that run in between. -/
def Executes (machine : Machine) (frame : Frame) (callers : List Frame) (world : World)
    (later : Frame) (others : List Frame) (after : World) : Prop :=
  others.length = callers.length ∧
    LeadsBy machine.run (State.Above callers.length) (machine.step (.running frame callers world))
      (.running later others after)

/-- While calls run above a waiting frame, neither the frame nor its callers change; when the last of these
calls returns, the frame takes the result. -/
theorem step_above_waiting (inner : Frame) (between : List Frame) (waiting : Frame)
    (callers : List Frame) (world : World) :
    (∃ next calls after, machine.step (.running inner (between ++ waiting :: callers) world) =
      .running next (calls ++ waiting :: callers) after) ∨
    (∃ value after, machine.step (.running inner (between ++ waiting :: callers) world) =
      .running (waiting.receive value) callers after) ∨
    ∃ outcome after, machine.step (.running inner (between ++ waiting :: callers) world) =
      .stopped outcome after := by
  rw [step_running]
  rcases inner.advance machine.program world with cause | ⟨after, effect⟩
  · exact .inr (.inr ⟨_, _, rfl⟩)
  · cases effect with
    | proceed next => exact .inl ⟨next, between, after, rfl⟩
    | call caller image routine args =>
        simp only [absorb, enterCall]
        split
        · exact .inr (.inr ⟨_, _, rfl⟩)
        · split
          · exact .inr (.inr ⟨_, _, rfl⟩)
          · split
            · exact .inl ⟨_, caller :: between, after, rfl⟩
            · exact .inr (.inr ⟨_, _, rfl⟩)
    | finish value =>
        cases between with
        | nil => exact .inr (.inl ⟨value, after, rfl⟩)
        | cons caller rest => exact .inl ⟨_, rest, after, rfl⟩
    | crash => exact .inr (.inr ⟨_, _, rfl⟩)

theorem returns_to_waiting {inner waiting : Frame} {between : List Frame}
    (level : others.length = callers.length)
    (leads : LeadsBy machine.run (State.Above callers.length)
      (.running inner (between ++ waiting :: callers) world) (.running later others after)) :
    others = callers ∧ ∃ value, later = waiting.receive value := by
  obtain ⟨fuel, ran, above⟩ := leads
  induction fuel generalizing inner between world with
  | zero =>
      simp only [run_zero, State.running.injEq] at ran
      obtain ⟨-, rfl, -⟩ := ran
      simp only [List.length_append, List.length_cons] at level
      omega
  | succ fuel ih =>
      rw [run_succ] at ran
      have aboveNext : ∀ earlier < fuel, State.Above callers.length (machine.run earlier
          (machine.step (.running inner (between ++ waiting :: callers) world))) := by
        intro earlier bound
        rw [← run_succ]
        exact above (earlier + 1) (by omega)
      rcases step_above_waiting inner between waiting callers world with
        ⟨next, calls, middle, stepped⟩ | ⟨value, middle, stepped⟩ | ⟨outcome, middle, stepped⟩
      · rw [stepped] at ran aboveNext
        exact ih ran aboveNext
      · rw [stepped] at ran aboveNext
        cases fuel with
        | zero =>
            simp only [run_zero, State.running.injEq] at ran
            obtain ⟨rfl, rfl, -⟩ := ran
            exact ⟨rfl, value, rfl⟩
        | succ fuel => exact absurd (aboveNext 0 (by omega)) (Nat.lt_irrefl _)
      · rw [stepped, run_stopped] at ran
        cases ran

theorem receive_length (caller : Frame) (value : Value) :
    ((caller.receive value).stack.length : Int) =
      caller.stack.length + if caller.keepsResult then 1 else 0 := by
  unfold Frame.receive
  split <;> simp [Frame.push]

theorem eq_of_not_above {depth : Nat} {start finish : State}
    (leads : LeadsBy machine.run (State.Above depth) start finish) (notAbove : ¬start.Above depth) :
    start = finish := by
  obtain ⟨fuel, ran, above⟩ := leads
  cases fuel with
  | zero => exact ran
  | succ fuel => exact absurd (above 0 (by omega)) notAbove

theorem not_leads_stopped {depth : Nat} {outcome : Outcome} {middle : World} :
    ¬LeadsBy machine.run (State.Above depth) (.stopped outcome middle)
      (.running later others after) := by
  intro leads
  cases eq_of_not_above leads id

theorem Executes.raised {rise : Int} (executes : machine.Executes frame callers world later others after)
    (raises : Raises frame rise (frame.advance machine.program world)) :
    others = callers ∧ (later.stack.length : Int) = frame.stack.length + rise := by
  obtain ⟨level, leads⟩ := executes
  rw [step_running] at leads
  generalize frame.advance machine.program world = result at leads raises
  cases raises with
  | fault cause => exact absurd leads not_leads_stopped
  | crash middle => exact absurd leads not_leads_stopped
  | proceed height =>
      have same := eq_of_not_above leads (Nat.lt_irrefl _)
      cases same
      exact ⟨rfl, height⟩
  | @call middle caller image routine args height =>
      simp only [absorb, enterCall] at leads
      split at leads
      · exact absurd leads not_leads_stopped
      · split at leads
        · exact absurd leads not_leads_stopped
        · split at leads
          · rw [← List.nil_append (caller :: callers)] at leads
            obtain ⟨same, value, rfl⟩ := returns_to_waiting level leads
            exact ⟨same, by rw [receive_length, height]⟩
          · exact absurd leads not_leads_stopped
  | finish middle value =>
      cases callers with
      | nil => exact absurd leads not_leads_stopped
      | cons caller rest =>
          have same := eq_of_not_above leads (Nat.not_lt_of_gt (Nat.lt_succ_self _))
          cases same
          simp only [List.length_cons] at level
          omega

theorem advance_of_decoded {opcode : Opcode} {operands : List Nat} {next : Nat} (machine : Machine)
    (world : World)
    (decoded : decodeAt frame.routine.code frame.offset = .instruction opcode operands next) :
    frame.advance machine.program world =
      execute machine.program { frame with offset := next } world opcode (operands.headD 0) := by
  rw [Frame.advance, decoded]

/-- The height of the stack behind an instruction. If the machine executes an instruction of a frame and
comes back to the frame, the stack has changed by what the opcode and the constant at its operand say,
whatever the values on the stack are and whatever the called routine does. Only a string that prints itself
where a result is expected leaves one value less than that. -/
theorem stack_effect_static {opcode : Opcode} {operands : List Nat} {next : Nat}
    (decoded : decodeAt frame.routine.code frame.offset = .instruction opcode operands next)
    (executes : machine.Executes frame callers world later others after) :
    let constant := frame.image.constants[operands.headD 0]?
    others = callers ∧
      (¬frame.Unanswered opcode constant →
        (later.stack.length : Int) = frame.stack.length + opcode.rise constant) ∧
      (frame.Unanswered opcode constant → later.stack.length + 1 = frame.stack.length) := by
  intro constant
  have advanced := advance_of_decoded machine world decoded
  by_cases unanswered : frame.Unanswered opcode constant
  · obtain rfl : opcode = .invokeVirtual := unanswered.1
    have raises : Raises frame (-1) (frame.advance machine.program world) := by
      rw [advanced]
      exact .of_offset next (invokeVirtual_unanswered unanswered)
    obtain ⟨same, height⟩ := executes.raised raises
    exact ⟨same, fun answered => absurd unanswered answered, fun _ => by omega⟩
  · have raises : Raises frame (opcode.rise constant) (frame.advance machine.program world) := by
      rw [advanced]
      exact .of_offset next (execute_raises opcode (operands.headD 0) unanswered)
    obtain ⟨same, height⟩ := executes.raised raises
    exact ⟨same, fun _ => height, fun unanswered' => absurd unanswered' unanswered⟩

end Runs

def answering : Routine :=
  { name := "answer", isStatic := true, params := 2, locals := 0, returns := .int
    code := #[4, 0, 20, 0, 8, 4, 1, 28, 1, 0, 0, 4, 1, 18, 0, 1, 28] }

def answerConstants : Array Constant :=
  #[.ofInt 0, .ofMethod { owner := "Sole", name := "answer", args := 2, returns := .int }]

def answerFrame (more : Int64) (stack : List Value) (offset : Nat) (keepsResult : Bool) : Frame :=
  { Frame.enter ⟨"Sole", [], .ofEntries answerConstants, #[answering]⟩ answering [.int more, .int 5] with
    stack, offset, keepsResult }

/-- The call of `answering` within itself takes two arguments and leaves one result. -/
theorem stack_effect_static_answering :
    let machine := soleMachine answerConstants answering
    let world : World := .new (fun _ => 0) none
    ∃ frame later : Frame,
      decodeAt frame.routine.code frame.offset = .instruction .invokeStatic [1] 16 ∧
      machine.Executes frame [] world later [] world ∧
      (later.stack.length : Int) = frame.stack.length - 1 := by
  intro machine world
  have decoded : decodeAt answering.code 13 = .instruction .invokeStatic [1] 16 := by decide
  let inside (frame : Frame) : State := .running frame [answerFrame 1 [] 16 true] world
  have leads {start finish : State} (stepped : machine.step start = finish)
      (above : start.Above 0) : LeadsBy machine.run (State.Above 0) start finish :=
    .once ((run_one start).trans stepped) above
  have enters : machine.step (.running (answerFrame 1 [.int 5, .int 0] 13 false) [] world) =
      inside (answerFrame 0 [] 0 false) := rfl
  have loads : LeadsBy machine.run (State.Above 0) (inside (answerFrame 0 [] 0 false))
      (inside (answerFrame 0 [.int 0] 2 false)) := leads rfl Nat.one_pos
  have passes : LeadsBy machine.run (State.Above 0) (inside (answerFrame 0 [.int 0] 2 false))
      (inside (answerFrame 0 [] 5 false)) := leads rfl Nat.one_pos
  have loadsAgain : LeadsBy machine.run (State.Above 0) (inside (answerFrame 0 [] 5 false))
      (inside (answerFrame 0 [.int 5] 7 false)) := leads rfl Nat.one_pos
  have returns : LeadsBy machine.run (State.Above 0) (inside (answerFrame 0 [.int 5] 7 false))
      (.running (answerFrame 1 [.int 5] 16 true) [] world) := leads rfl Nat.one_pos
  have executes : machine.Executes (answerFrame 1 [.int 5, .int 0] 13 false) [] world
      (answerFrame 1 [.int 5] 16 true) [] world :=
    ⟨rfl, enters ▸ ((loads.trans run_add passes).trans run_add loadsAgain).trans run_add returns⟩
  obtain ⟨-, height, -⟩ := stack_effect_static decoded executes
  exact ⟨_, _, decoded, executes, height fun unanswered => absurd unanswered.1 (by decide)⟩

def asking : Routine :=
  { name := "ask", isStatic := true, params := 0, locals := 0, returns := .void
    code := #[1, 0, 0, 17, 0, 1, 2, 27] }

def askConstants : Array Constant :=
  #[.ofString "x", .ofMethod { owner := "String", name := "output", args := 0, returns := .int }]

def askFrame (stack : List Value) (offset : Nat) : Frame :=
  { Frame.enter ⟨"Sole", [], .ofEntries askConstants, #[asking]⟩ asking [] with stack, offset }

/-- The constant of a call does not decide for a string: here it says that the receiver gives way to a
result, but the stack is lower behind the call, and a value is missing for the next instruction. -/
theorem output_leaves_no_result :
    let machine := soleMachine askConstants asking
    let world : World := .new (fun _ => 0) none
    let written := { world with output := world.output ++ "x" }
    ∃ start frame later : Frame,
      machine.call world "Sole" "ask" [] = .running start [] world ∧
      machine.step (.running start [] world) = .running frame [] world ∧
      decodeAt frame.routine.code frame.offset = .instruction .invokeVirtual [1] 6 ∧
      Opcode.invokeVirtual.rise frame.image.constants[1]? = 0 ∧
      machine.Executes frame [] world later [] written ∧
      frame.stack.length = 1 ∧ later.stack.length = 0 ∧
      machine.step (.running later [] written) =
        .stopped (.failed { active := ["Sole.ask"], cause := .stackUnderflow "Sole" "ask" }) written := by
  intro machine world written
  have executes : machine.Executes (askFrame [.text "x"] 3) [] world (askFrame [] 6) [] written :=
    ⟨rfl, 0, rfl, fun _ first => absurd first (Nat.not_lt_zero _)⟩
  have decoded : decodeAt asking.code 3 = .instruction .invokeVirtual [1] 6 := by decide
  exact ⟨askFrame [] 0, _, _, rfl, rfl, decoded, rfl, executes, rfl, rfl, rfl⟩

end Assay.Machine
