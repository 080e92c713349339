import Assay.Proofs.Machine.Steps
import Assay.Proofs.Success

/-!
What one instruction can do: it fails, goes on, calls a routine of the program, ends its call or breaks
the machine down. The frame stays in its call, the output only grows and the clock is only read on.
-/

namespace Assay.Machine

open Bytecode

structure World.Precedes (earlier later : World) : Prop where
  output : ∃ text, later.output = earlier.output ++ text
  outputLimit : later.outputLimit = earlier.outputLimit
  clock : later.clock = earlier.clock
  readings : earlier.readings ≤ later.readings

namespace World

theorem Precedes.refl (world : World) : world.Precedes world :=
  ⟨⟨"", by rw [String.append_empty]⟩, rfl, rfl, Nat.le_refl _⟩

theorem Precedes.trans {first second third : World} (earlier : first.Precedes second)
    (later : second.Precedes third) : first.Precedes third := by
  obtain ⟨text, written⟩ := earlier.output
  obtain ⟨more, writtenOn⟩ := later.output
  exact ⟨⟨text ++ more, by rw [writtenOn, written, String.append_assoc]⟩,
    later.outputLimit.trans earlier.outputLimit, later.clock.trans earlier.clock,
    Nat.le_trans earlier.readings later.readings⟩

theorem precedes_write? {world written : World} {text : String}
    (accepted : world.write? text = some written) : world.Precedes written := by
  unfold write? at accepted
  split at accepted
  · cases accepted
    exact ⟨⟨text, rfl⟩, rfl, rfl, Nat.le_refl _⟩
  · cases accepted

theorem precedes_readClock (world : World) : world.Precedes world.readClock.1 :=
  ⟨(Precedes.refl world).output, rfl, rfl, Nat.le_succ _⟩

theorem precedes_heap (world : World) (heap : Array Object) : world.Precedes { world with heap } :=
  ⟨(Precedes.refl world).output, rfl, rfl, Nat.le_refl _⟩

end World

section Heights

variable {frame rest : Frame}

theorem pop_stack {value : Value} (done : frame.pop = .ok (value, rest)) :
    frame.stack = value :: rest.stack := by
  unfold Frame.pop at done
  split at done
  · rename_i isStack
    cases done
    exact isStack
  · cases done

theorem pop_length {value : Value} (done : frame.pop = .ok (value, rest)) :
    frame.stack.length = rest.stack.length + 1 := by
  rw [pop_stack done, List.length_cons]

theorem popInt_length {value : Int64} (done : frame.popInt = .ok (value, rest)) :
    frame.stack.length = rest.stack.length + 1 := by
  unfold Frame.popInt at done
  split at done
  · rename_i popped
    cases done
    exact pop_length popped
  · cases done
  · cases done

theorem popFloat_length {value : Float} (done : frame.popFloat = .ok (value, rest)) :
    frame.stack.length = rest.stack.length + 1 := by
  unfold Frame.popFloat at done
  split at done
  · rename_i popped
    cases done
    exact pop_length popped
  · cases done
  · cases done

theorem popObject_length {address : Nat} (done : frame.popObject = .ok (address, rest)) :
    frame.stack.length = rest.stack.length + 1 := by
  unfold Frame.popObject at done
  split at done
  · rename_i popped
    cases done
    exact pop_length popped
  · cases done
  · cases done
  · cases done

theorem popInts_length {values : Int64 × Int64} (done : frame.popInts = .ok (values, rest)) :
    frame.stack.length = rest.stack.length + 2 := by
  obtain ⟨⟨right, middle⟩, first, done⟩ := bind_eq_ok.mp done
  obtain ⟨⟨left, last⟩, second, done⟩ := bind_eq_ok.mp done
  cases done
  rw [popInt_length first, popInt_length second]

theorem popArguments_stack {method : MethodRef} {args : List Value}
    (done : popArguments frame method = .ok (some (args, rest))) :
    0 ≤ method.args ∧ method.args.toNat ≤ frame.stack.length ∧
      rest.stack = frame.stack.drop method.args.toNat := by
  unfold popArguments at done
  split at done
  · cases done
  · rename_i notNegative
    split at done
    · rename_i popped isPopped
      cases done
      unfold Frame.popMany at isPopped
      split at isPopped
      · cases isPopped
      · rename_i enough
        cases isPopped
        exact ⟨Int.not_lt.mp notNegative, Nat.le_of_not_lt enough, rfl⟩
    · cases done

theorem popArguments_length {method : MethodRef} {args : List Value}
    (done : popArguments frame method = .ok (some (args, rest))) :
    frame.stack.length = rest.stack.length + method.args.toNat := by
  obtain ⟨-, enough, stack⟩ := popArguments_stack done
  rw [stack, List.length_drop]
  omega

end Heights

section Instructions

variable {program : Program} {frame : Frame} {world : World} {allowed : Nat → Prop} {breaks : Prop}

structure Stays (frame : Frame) (allowed : Nat → Prop) (next : Frame) : Prop where
  image : next.image = frame.image
  routine : next.routine = frame.routine
  offset : allowed next.offset

/-- What an instruction may do to a frame and its world. `allowed` are the offsets at which it may leave
the frame, and `breaks` says when it may break the machine down. -/
inductive Behaves (program : Program) (frame : Frame) (world : World) (allowed : Nat → Prop)
    (breaks : Prop) : Except Fault (World × Effect) → Prop
  | fault (cause : Fault) : Behaves program frame world allowed breaks (.error cause)
  | proceed {after : World} {next : Frame} : world.Precedes after → Stays frame allowed next →
      Behaves program frame world allowed breaks (.ok (after, .proceed next))
  | call {caller : Frame} {owner name : String} {image : ClassImage} {routine : Routine}
      (args : List Value) : Stays frame allowed caller →
      program.lookup owner name = .ok (image, routine) →
      Behaves program frame world allowed breaks (.ok (world, .call caller image routine args))
  | finish (value : Value) : Behaves program frame world allowed breaks (.ok (world, .finish value))
  | crash : breaks → Behaves program frame world allowed breaks (.ok (world, .crash))

theorem Behaves.of_offset {offset : Nat} {result : Except Fault (World × Effect)}
    (behaves : Behaves program { frame with offset } world allowed breaks result) :
    Behaves program frame world allowed breaks result := by
  cases behaves with
  | fault cause => exact .fault cause
  | proceed precedes stays => exact .proceed precedes ⟨stays.image, stays.routine, stays.offset⟩
  | call args stays found => exact .call args ⟨stays.image, stays.routine, stays.offset⟩ found
  | finish value => exact .finish value
  | crash holds => exact .crash holds

theorem Behaves.bind {α : Type} {first : Except Fault α}
    {second : α → Except Fault (World × Effect)}
    (rest : ∀ value, first = .ok value →
      Behaves program frame world allowed breaks (second value)) :
    Behaves program frame world allowed breaks (first >>= second) := by
  cases first with
  | error cause => exact .fault cause
  | ok value => exact rest value rfl

def Popped (frame rest : Frame) : Prop := ∃ stack, rest = { frame with stack }

theorem Popped.trans {first second third : Frame} (earlier : Popped first second)
    (later : Popped second third) : Popped first third := by
  obtain ⟨_, rfl⟩ := earlier
  obtain ⟨stack, rfl⟩ := later
  exact ⟨stack, rfl⟩

theorem Popped.stays {rest : Frame} (popped : Popped frame rest) (here : allowed frame.offset)
    (stack : List Value) : Stays frame allowed { rest with stack } := by
  obtain ⟨_, rfl⟩ := popped
  exact ⟨rfl, rfl, here⟩

theorem pop_popped {value : Value} {rest : Frame} (done : frame.pop = .ok (value, rest)) :
    Popped frame rest := by
  unfold Frame.pop at done
  split at done
  · cases done
    exact ⟨_, rfl⟩
  · cases done

theorem popInt_popped {value : Int64} {rest : Frame} (done : frame.popInt = .ok (value, rest)) :
    Popped frame rest := by
  unfold Frame.popInt at done
  split at done
  · rename_i popped
    cases done
    exact pop_popped popped
  · cases done
  · cases done

theorem popFloat_popped {value : Float} {rest : Frame} (done : frame.popFloat = .ok (value, rest)) :
    Popped frame rest := by
  unfold Frame.popFloat at done
  split at done
  · rename_i popped
    cases done
    exact pop_popped popped
  · cases done
  · cases done

theorem popObject_popped {address : Nat} {rest : Frame}
    (done : frame.popObject = .ok (address, rest)) : Popped frame rest := by
  unfold Frame.popObject at done
  split at done
  · rename_i popped
    cases done
    exact pop_popped popped
  · cases done
  · cases done
  · cases done

theorem popInts_popped {values : Int64 × Int64} {rest : Frame}
    (done : frame.popInts = .ok (values, rest)) : Popped frame rest := by
  obtain ⟨⟨right, middle⟩, first, done⟩ := bind_eq_ok.mp done
  obtain ⟨⟨left, last⟩, second, done⟩ := bind_eq_ok.mp done
  cases done
  exact (popInt_popped first).trans (popInt_popped second)

theorem popArguments_cases {method : MethodRef} {result : Option (List Value × Frame)}
    (done : popArguments frame method = .ok result) :
    (method.args < 0 ∧ result = none) ∨ ∃ args rest, result = some (args, rest) ∧ Popped frame rest := by
  unfold popArguments at done
  split at done
  · rename_i negative
    cases done
    exact .inl ⟨negative, rfl⟩
  · refine .inr ?_
    split at done
    · rename_i popped isPopped
      cases done
      unfold Frame.popMany at isPopped
      split at isPopped
      · cases isPopped
      · cases isPopped
        exact ⟨_, _, rfl, _, rfl⟩
    · cases done

theorem jumpTo_behaves {rest : Frame} (popped : Popped frame rest) {target : Nat}
    (isAllowed : allowed target) :
    Behaves program frame world allowed breaks (do pure (world, ← jumpTo rest target)) := by
  obtain ⟨stack, rfl⟩ := popped
  refine Behaves.bind fun effect jumped => ?_
  unfold jumpTo at jumped
  split at jumped
  · cases jumped
  · cases jumped
    exact .proceed (.refl world) ⟨rfl, rfl, isAllowed⟩

theorem newObject_behaves (here : allowed frame.offset) (index : Nat) :
    Behaves program frame world allowed breaks (newObject program frame world index) := by
  refine Behaves.bind fun name _ => ?_
  cases program.class? name with
  | none => exact .fault _
  | some image => exact .proceed (world.precedes_heap _) ⟨rfl, rfl, here⟩

theorem getField_behaves (here : allowed frame.offset) (index : Nat) :
    Behaves program frame world allowed breaks (getField frame world index) := by
  refine Behaves.bind fun name _ => Behaves.bind fun ⟨address, rest⟩ popped => ?_
  simp only
  split
  · exact .proceed (.refl world) ((popObject_popped popped).stays here _)
  · exact .fault _

theorem setField_behaves (here : allowed frame.offset) (index : Nat) :
    Behaves program frame world allowed breaks (setField frame world index) := by
  refine Behaves.bind fun name _ => Behaves.bind fun ⟨value, middle⟩ first =>
    Behaves.bind fun ⟨address, rest⟩ second => ?_
  simp only
  split
  · exact .proceed (world.precedes_heap _)
      (((pop_popped first).trans (popObject_popped second)).stays here rest.stack)
  · exact .fault _

theorem write_behaves {rest : Frame} (popped : Popped frame rest) (here : allowed frame.offset)
    (text : String) :
    Behaves program frame world allowed breaks
      (match world.write? text with
        | some written => .ok (written, .proceed rest)
        | none => .error .outputLimit) := by
  split
  · rename_i written accepted
    exact .proceed (World.precedes_write? accepted) (popped.stays here rest.stack)
  · exact .fault _

theorem printValue_behaves (here : allowed frame.offset) :
    Behaves program frame world allowed breaks (printValue frame world) := by
  refine Behaves.bind fun ⟨value, rest⟩ popped => ?_
  simp only
  split
  · exact .fault _
  · exact write_behaves (pop_popped popped) here _

theorem callEffect_behaves {rest : Frame} (popped : Popped frame rest)
    (here : allowed frame.offset) (method : MethodRef) {owner name : String} {image : ClassImage}
    {routine : Routine} (found : program.lookup owner name = .ok (image, routine))
    (args : List Value) :
    Behaves program frame world allowed breaks
      (.ok (world, callEffect rest method image routine args)) := by
  obtain ⟨stack, rfl⟩ := popped
  exact .call args ⟨rfl, rfl, here⟩ found

theorem dispatch_behaves {rest : Frame} (popped : Popped frame rest) (here : allowed frame.offset)
    (method : MethodRef) (args : List Value) (receiver : Value) :
    Behaves program frame world allowed breaks
      (dispatch program rest world method args receiver) := by
  cases receiver with
  | text text =>
      simp only [dispatch]
      split
      · exact write_behaves popped here text
      · exact .fault _
  | object address =>
      simp only [dispatch]
      split
      · exact .fault _
      · rename_i found
        split
        · exact .fault _
        · exact callEffect_behaves popped here method found _
  | _ => exact .fault _

theorem invokeVirtual_behaves (here : allowed frame.offset)
    (negative : ∀ index method, frame.methodConstant index = .ok method → method.args < 0 → breaks)
    (index : Nat) :
    Behaves program frame world allowed breaks (invokeVirtual program frame world index) := by
  refine Behaves.bind fun method found => Behaves.bind fun popped isPopped => ?_
  rcases popArguments_cases isPopped with ⟨isNegative, rfl⟩ | ⟨args, rest, rfl, first⟩
  · exact .crash (negative index method found isNegative)
  · exact Behaves.bind fun ⟨receiver, last⟩ second =>
      dispatch_behaves (first.trans (pop_popped second)) here method args receiver

theorem invokeStatic_behaves (here : allowed frame.offset)
    (negative : ∀ index method, frame.methodConstant index = .ok method → method.args < 0 → breaks)
    (index : Nat) :
    Behaves program frame world allowed breaks (invokeStatic program frame world index) := by
  refine Behaves.bind fun method found => ?_
  split
  · exact .fault _
  · rename_i isRoutine
    split
    · exact .fault _
    · refine Behaves.bind fun popped isPopped => ?_
      rcases popArguments_cases isPopped with ⟨isNegative, rfl⟩ | ⟨args, rest, rfl, first⟩
      · exact .crash (negative index method found isNegative)
      · exact callEffect_behaves first here method isRoutine args

/-- Every instruction goes on behind itself or jumps to its operand. Only a method with a negative number
of arguments breaks the machine down. -/
theorem execute_behaves (opcode : Opcode) (operand : Nat) (here : allowed frame.offset)
    (target : opcode.isJump = true → allowed operand)
    (negative : ∀ index method, frame.methodConstant index = .ok method → method.args < 0 → breaks) :
    Behaves program frame world allowed breaks (execute program frame world opcode operand) := by
  cases opcode with
  | new => exact newObject_behaves here operand
  | getField => exact getField_behaves here operand
  | setField => exact setField_behaves here operand
  | print => exact printValue_behaves here
  | invokeVirtual => exact invokeVirtual_behaves here negative operand
  | invokeStatic => exact invokeStatic_behaves here negative operand
  | nanoTime => exact .proceed world.precedes_readClock ⟨rfl, rfl, here⟩
  | pushConstant =>
      exact Behaves.bind fun constant _ => Behaves.bind fun value _ =>
        .proceed (.refl world) ⟨rfl, rfl, here⟩
  | pop =>
      exact Behaves.bind fun ⟨value, rest⟩ popped =>
        .proceed (.refl world) ((pop_popped popped).stays here rest.stack)
  | dup =>
      exact Behaves.bind fun ⟨value, rest⟩ popped => .proceed (.refl world) ((pop_popped popped).stays here _)
  | neg | intToFloat =>
      exact Behaves.bind fun ⟨value, rest⟩ popped =>
        .proceed (.refl world) ((popInt_popped popped).stays here _)
  | add | sub | mul =>
      exact Behaves.bind fun ⟨values, rest⟩ popped =>
        .proceed (.refl world) ((popInts_popped popped).stays here _)
  | load =>
      simp only [execute]
      split
      · exact .proceed (.refl world) ⟨rfl, rfl, here⟩
      · exact .fault _
  | store =>
      simp only [execute]
      split
      · refine Behaves.bind fun ⟨value, rest⟩ popped => ?_
        obtain ⟨stack, rfl⟩ := pop_popped popped
        exact .proceed (.refl world) ⟨rfl, rfl, here⟩
      · exact .fault _
  | floatDiv =>
      refine Behaves.bind fun ⟨right, middle⟩ first => Behaves.bind fun ⟨left, rest⟩ second => ?_
      simp only
      split
      · exact .fault _
      · exact .proceed (.refl world) (((popFloat_popped first).trans (popFloat_popped second)).stays here _)
  | jump => exact jumpTo_behaves ⟨frame.stack, rfl⟩ (target rfl)
  | jumpIfTrue =>
      refine Behaves.bind fun ⟨value, rest⟩ popped => ?_
      simp only
      split
      · exact jumpTo_behaves (popInt_popped popped) (target rfl)
      · exact .proceed (.refl world) ((popInt_popped popped).stays here rest.stack)
  | jumpIfEq | jumpIfNe | jumpIfLt | jumpIfLe | jumpIfGt | jumpIfGe =>
      refine Behaves.bind fun ⟨⟨left, right⟩, rest⟩ popped => ?_
      simp only
      split
      · exact jumpTo_behaves (popInts_popped popped) (target rfl)
      · exact .proceed (.refl world) ((popInts_popped popped).stays here rest.stack)
  | ret =>
      simp only [execute]
      split
      · exact .finish _
      · exact .fault _
  | retValue =>
      simp only [execute]
      split
      · exact .fault _
      · exact Behaves.bind fun popped _ => .finish _

theorem advance_behaves (program : Program) (frame : Frame) (world : World) :
    Behaves program frame world (fun _ => True) True (frame.advance program world) := by
  unfold Frame.advance
  split
  · exact .fault _
  · exact .crash trivial
  · exact .fault _
  · rename_i opcode operands next _
    have behaves : Behaves program { frame with offset := next } world (fun _ => True) True
        (execute program { frame with offset := next } world opcode (operands.headD 0)) :=
      execute_behaves opcode (operands.headD 0) trivial (fun _ => trivial) fun _ _ _ _ => trivial
    exact behaves.of_offset

end Instructions

end Assay.Machine
