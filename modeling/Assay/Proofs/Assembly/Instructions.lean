import Assay.Proofs.Assembly.Materialization
import Assay.Proofs.Graph.Meaning

/-!
An encoded instruction does on the machine what the instruction means. A call may go through a constant
of another method with the same text, so that only the texts of faults are compared.
-/

namespace Assay

namespace Machine

open Bytecode

/-- The same result; of failures the routines that were active and the text are compared. -/
inductive Outcome.Same : Outcome → Outcome → Prop
  | returned (value : Value) : Outcome.Same (.returned value) (.returned value)
  | failed {first second : Failure} : first.active = second.active →
      first.cause.message = second.cause.message → Outcome.Same (.failed first) (.failed second)
  | crashed : Outcome.Same .crashed .crashed

theorem Outcome.Same.refl (outcome : Outcome) : outcome.Same outcome := by
  cases outcome with
  | returned value => exact .returned value
  | failed failure => exact .failed rfl rfl
  | crashed => exact .crashed

inductive State.Same : State → State → Prop
  | equal (state : State) : State.Same state state
  | stopped {first second : Outcome} (world : World) : first.Same second →
      State.Same (.stopped first world) (.stopped second world)

theorem State.Same.of_running {frame : Frame} {callers : List Frame} {world : World} {state : State}
    (same : (State.running frame callers world).Same state) :
    state = .running frame callers world := by
  cases same with
  | equal => rfl

theorem State.Same.of_stopped {outcome : Outcome} {world : World} {state : State}
    (same : (State.stopped outcome world).Same state) :
    ∃ result, outcome.Same result ∧ state = .stopped result world := by
  cases same with
  | equal => exact ⟨outcome, Outcome.Same.refl _, rfl⟩
  | stopped _ sameOutcome => exact ⟨_, sameOutcome, rfl⟩

inductive SameResult :
    Except Fault (World × Effect) → Except Fault (World × Effect) → Prop
  | equal (result : Except Fault (World × Effect)) : SameResult result result
  | fault {first second : Fault} : first.message = second.message →
      SameResult (.error first) (.error second)

def Effect.moved (offset : Nat) : Effect → Effect
  | proceed frame => proceed { frame with offset }
  | call caller image routine args => call { caller with offset } image routine args
  | finish value => finish value
  | crash => crash

def movedResult (offset : Nat) : Except Fault (World × Effect) → Except Fault (World × Effect)
  | .ok (world, effect) => .ok (world, effect.moved offset)
  | .error cause => .error cause

theorem move_of_lt {depth offset : Nat} {frame : Frame} {callers : List Frame} {world : World}
    (outside : callers.length < depth) :
    (State.running frame callers world).move depth offset = .running frame callers world := by
  have kept : ∀ frames : List Frame, frames.length ≤ depth → moveFrame depth offset frames = frames := by
    intro frames short
    induction frames with
    | nil => rfl
    | cons frame callers ih =>
        simp only [List.length_cons] at short
        have other : callers.length ≠ depth := by omega
        simp only [moveFrame, other, if_false, ih (by omega)]
  have other : callers.length ≠ depth := by omega
  simp only [State.move, other, if_false, kept callers (by omega)]

theorem absorb_moved (machine : Machine) (frame : Frame) (callers : List Frame) (world : World)
    (before after : Nat) (result : Except Fault (World × Effect)) :
    machine.absorb { frame with offset := before } callers world (movedResult after result) =
      (machine.absorb frame callers world result).move callers.length after := by
  rcases result with cause | ⟨world, effect⟩
  · exact failWith_eq_of_names (by simp) _ _
  · cases effect with
    | proceed next => simp [movedResult, Effect.moved, absorb, State.move]
    | call caller image routine args =>
        simp only [movedResult, Effect.moved, absorb, enterCall, List.length_cons]
        split
        · exact failWith_eq_of_names (by simp) _ _
        · split
          · exact failWith_eq_of_names (by simp) _ _
          · split
            · simp [State.move, moveFrame]
            · rfl
    | finish value =>
        cases callers with
        | nil => rfl
        | cons caller rest =>
            simp only [movedResult, Effect.moved, absorb, deliver]
            rw [move_of_lt (by simp)]
    | crash => rfl

theorem absorb_same (machine : Machine) (frame : Frame) (callers : List Frame) (world : World)
    {first second : Except Fault (World × Effect)} (same : SameResult first second) :
    (machine.absorb frame callers world first).Same (machine.absorb frame callers world second) := by
  cases same with
  | equal result => exact .equal _
  | fault sameText => exact .stopped _ (.failed rfl sameText)

/-- The routine that an object of a class is called with. -/
def virtual? (program : Program) (owner name : String) : Option (ClassImage × Routine) :=
  match program.lookup owner name with
  | .ok (image, routine) => if routine.isStatic then none else some (image, routine)
  | .error _ => none

theorem dispatch_object (program : Program) (frame : Frame) (world : World) (method : MethodRef)
    (args : List Value) (address : Nat) :
    dispatch program frame world method args (.object address) =
      match virtual? program ((world.object? address).getD default).owner method.name with
      | some (image, routine) =>
        .ok (world, callEffect frame method image routine (.object address :: args))
      | none => .error (.unknownMethod method) := by
  simp only [dispatch, virtual?]
  cases program.lookup ((world.object? address).getD default).owner method.name with
  | error problem => rfl
  | ok found =>
      obtain ⟨image, routine⟩ := found
      dsimp only
      split
      · rfl
      · rfl

theorem isOutput_of_text {first second : MethodRef} (same : first.text = second.text) :
    isOutput first = isOutput second := by
  have output : ∀ {one other : MethodRef}, one.text = other.text → isOutput one = true →
      isOutput other = true := by
    intro one other same found
    obtain ⟨sameArgs, -, sameName⟩ := MethodRef.text_determines same
    simp only [isOutput, Bool.and_eq_true, decide_eq_true_eq] at found ⊢
    obtain ⟨⟨ownerIs, nameIs⟩, noArgs⟩ := found
    have chars := congrArg String.toList sameName
    simp only [ownerIs, nameIs, String.toList_append] at chars
    have dots := congrArg (List.count '.') chars
    simp only [List.count_append] at dots
    have expected : List.count '.' "String".toList + List.count '.' ".".toList +
        List.count '.' "output".toList = 1 := by decide
    have dot : List.count '.' ".".toList = 1 := by decide
    have noDot : '.' ∉ other.name.toList := by
      intro member
      have positive := List.count_pos_iff.mpr member
      omega
    obtain ⟨owners, names⟩ := append_cons_inj '.' "String".toList "output".toList
      other.owner.toList other.name.toList (by decide) noDot (by simpa using chars)
    exact ⟨⟨(String.toList_injective owners).symm, (String.toList_injective names).symm⟩,
      by rw [← sameArgs, noArgs]⟩
  cases firstIs : isOutput first with
  | true => exact (output same firstIs).symm
  | false =>
      cases secondIs : isOutput second with
      | true => rw [output same.symm secondIs] at firstIs; exact absurd firstIs (by simp)
      | false => rfl

theorem dispatch_same {program : Program} {first second : MethodRef}
    (same : first.text = second.text)
    (alike : ∀ owner, virtual? program owner first.name = virtual? program owner second.name)
    (frame : Frame) (world : World) (args : List Value) (receiver : Value) :
    SameResult (dispatch program frame world first args receiver)
      (dispatch program frame world second args receiver) := by
  obtain ⟨-, sameReturns, -⟩ := MethodRef.text_determines same
  have unknown : (Fault.unknownMethod first).message = (Fault.unknownMethod second).message :=
    congrArg ("unknown method: " ++ ·) same
  cases receiver with
  | text text =>
      simp only [dispatch, isOutput_of_text same]
      split
      · exact .equal _
      · exact .fault unknown
  | object address =>
      rw [dispatch_object, dispatch_object, alike]
      split
      · simp only [callEffect, sameReturns]
        exact .equal _
      · exact .fault unknown
  | nilObject => exact .equal _
  | _ => exact .fault (congrArg ("unknown method: " ++ · ++ " on " ++ Value.kindName _) same)

theorem dispatch_moved (program : Program) (frame : Frame) (world : World) (method : MethodRef)
    (args : List Value) (receiver : Value) (offset : Nat) :
    dispatch program { frame with offset } world method args receiver =
      movedResult offset (dispatch program frame world method args receiver) := by
  cases receiver with
  | text text =>
      simp only [dispatch]
      split
      · cases world.write? text with
        | none => rfl
        | some written => rfl
      · rfl
  | object address =>
      rw [dispatch_object, dispatch_object]
      split
      · rfl
      · rfl
  | _ => rfl

theorem advance_encoded {program : Program} {frame : Frame} {world : World} {opcode : Opcode}
    {operands : List Int} {bytes : List UInt8} (encoded : encode opcode operands = .ok bytes)
    (here : CodeAt frame.routine.code frame.offset bytes) :
    frame.advance program world =
      execute program { frame with offset := frame.offset + bytes.length } world opcode
        ((operands.map Int.toNat).headD 0) := by
  simp only [Frame.advance, decodeAt_encode encoded here]

end Machine

namespace Assembly

open Bytecode Assay.Graph Machine

theorem kindOf_ok {returns : ValueKind} {kind : Kind} (known : kindOf returns = .ok kind) :
    kind = returns.resultKind := by
  cases returns with
  | unknown code => simp [kindOf] at known
  | _ => simpa [kindOf, ValueKind.resultKind, eq_comm] using known

theorem callMethod_eq (program : Program) (frame : Frame) (world : World) (method : MethodRef) :
    callMethod program frame world method =
      if method.args < 0 then .ok (world, .crash)
      else if frame.stack.length < method.args.toNat then .error frame.underflow
      else
        match frame.stack.drop method.args.toNat with
        | [] => .error frame.underflow
        | receiver :: rest =>
          dispatch program { frame with stack := rest } world method
            (frame.stack.take method.args.toNat).reverse receiver := by
  unfold callMethod popArguments
  by_cases negative : method.args < 0
  · simp only [negative, if_true]
    rfl
  · simp only [negative, if_false, Frame.popMany]
    by_cases short : frame.stack.length < method.args.toNat
    · simp only [short, if_true]
      rfl
    · simp only [short, if_false, bind, Except.bind, Frame.pop]
      cases frame.stack.drop method.args.toNat with
      | nil => rfl
      | cons receiver rest => rfl

theorem callMethod_same {program : Program} {first second : MethodRef}
    (same : first.text = second.text)
    (alike : ∀ owner, virtual? program owner first.name = virtual? program owner second.name)
    (frame : Frame) (world : World) :
    SameResult (callMethod program frame world first) (callMethod program frame world second) := by
  obtain ⟨sameArgs, -, -⟩ := MethodRef.text_determines same
  rw [callMethod_eq, callMethod_eq, sameArgs]
  split
  · exact .equal _
  · split
    · exact .equal _
    · split
      · exact .equal _
      · exact dispatch_same same alike _ _ _ _

theorem perform_moved (program : Program) (frame : Frame) (world : World) (offset : Nat)
    (instruction : Instruction) :
    perform program { frame with offset } world instruction =
      movedResult offset (perform program frame world instruction) := by
  obtain ⟨image, routine, locals, stack, before, keepsResult⟩ := frame
  cases instruction with
  | const value => rfl
  | newString text => rfl
  | load slot =>
      simp only [perform, local?]
      cases (if slot < 0 then none else locals[slot.toNat]?) with
      | none => rfl
      | some value => rfl
  | getField owner field =>
      cases stack with
      | nil => rfl
      | cons value rest =>
          cases value with
          | object address =>
              simp only [perform, readField, Frame.popObject, Frame.pop, bind, Except.bind]
              cases ((world.object? address).getD default).get? field with
              | none => rfl
              | some found => rfl
          | _ => rfl
  | putField owner field =>
      cases stack with
      | nil => rfl
      | cons value rest =>
          cases rest with
          | nil => rfl
          | cons target rest =>
              cases target with
              | object address =>
                  simp only [perform, writeField, Frame.popObject, Frame.pop, bind, Except.bind]
                  cases ((world.object? address).getD default).get? field with
                  | none => rfl
                  | some found => rfl
              | _ => rfl
  | arithmetic operator =>
      cases stack with
      | nil => rfl
      | cons right rest =>
          cases right with
          | int right =>
              cases rest with
              | nil => rfl
              | cons left rest =>
                  cases left with
                  | int left => rfl
                  | _ => rfl
          | _ => rfl
  | virtualCall owner name args returns =>
      simp only [perform, callMethod_eq]
      split
      · rfl
      · split
        · rfl
        · split
          · rfl
          · rename_i receiver rest found
            exact dispatch_moved program ⟨image, routine, locals, rest, before, keepsResult⟩ _ _ _ _ _
  | ret kind =>
      simp only [perform, leave]
      split
      · split
        · rfl
        · rfl
      · split
        · rfl
        · cases stack with
          | nil => rfl
          | cons value rest => rfl
  | unknown code => rfl

/-- The instruction as it is encoded does what it means. -/
theorem execute_lowered {program : Program} {frame : Frame} (world : World)
    {instruction : Instruction} {opcode : Opcode} {operands : List Int} {bytes : List UInt8}
    (lowers : Lowers frame.image.constants instruction opcode operands)
    (encoded : encode opcode operands = .ok bytes)
    (alike : ∀ owner name args returns entry,
      instruction = .virtualCall owner name args returns →
      .ofMethod entry ∈ frame.image.constants →
      entry.text = MethodRef.text { owner, name, args, returns := returns.resultKind } →
      ∀ class_, virtual? program class_ name = virtual? program class_ entry.name) :
    SameResult (perform program frame world instruction)
      (execute program frame world opcode ((operands.map Int.toNat).headD 0)) := by
  cases lowers with
  | const found =>
      simp only [List.map_cons, Int.toNat_natCast, List.headD_cons, execute, Frame.constant,
        found, perform]
      exact .equal _
  | newString found =>
      simp only [List.map_cons, Int.toNat_natCast, List.headD_cons, execute, Frame.constant,
        found, perform]
      exact .equal _
  | load slot =>
      obtain ⟨width, -, notNegative, -⟩ := encode_operand_fits encoded
      have inRange : ¬slot < 0 := by omega
      simp only [List.map_cons, List.headD_cons, execute, perform, local?, inRange, if_false]
      cases frame.locals[slot.toNat]? with
      | none => exact .equal _
      | some value => exact .equal _
  | getField found =>
      simp only [List.map_cons, Int.toNat_natCast, List.headD_cons, execute, getField,
        Frame.stringConstant, Frame.constant, found, perform]
      exact .equal _
  | putField found =>
      simp only [List.map_cons, Int.toNat_natCast, List.headD_cons, execute, setField,
        Frame.stringConstant, Frame.constant, found, perform]
      exact .equal _
  | arithmetic operator =>
      cases operator with
      | add => exact .equal _
      | sub => exact .equal _
      | mul => exact .equal _
  | @virtualCall owner name args returns kind entry index known found sameText =>
      obtain rfl := kindOf_ok known
      have called := alike owner name args returns entry rfl (Array.mem_of_getElem? found) sameText
      have invoked : invokeVirtual program frame world index =
          callMethod program frame world entry := by
        simp only [invokeVirtual, Frame.methodConstant, Frame.constant, found]
        rfl
      simp only [List.map_cons, Int.toNat_natCast, List.headD_cons, execute, invoked, perform]
      exact callMethod_same sameText.symm called frame world
  | ret kind =>
      by_cases isVoid : kind = .void
      · simp only [isVoid, if_true, perform, leave, execute]
        exact .equal _
      · simp only [isVoid, if_false, perform, leave, execute]
        exact .equal _

inductive Does (frame : Frame) (world : World) (isReturn : Bool) :
    Except Fault (World × Effect) → Prop
  | fault (cause : Fault) : Does frame world isReturn (.error cause)
  | proceed (after : World) (stack : List Value) : isReturn = false →
      Does frame world isReturn (.ok (after, .proceed { frame with stack }))
  | call (stack : List Value) (keepsResult : Bool) (image : ClassImage) (routine : Routine)
      (args : List Value) : isReturn = false →
      Does frame world isReturn
        (.ok (world, .call { frame with stack, keepsResult } image routine args))
  | finish (value : Value) : Does frame world isReturn (.ok (world, .finish value))
  | crash : Does frame world isReturn (.ok (world, .crash))

theorem dispatch_does (program : Program) (frame : Frame) (stack : List Value) (world : World)
    (method : MethodRef) (args : List Value) (receiver : Value) :
    Does frame world false
      (dispatch program { frame with stack } world method args receiver) := by
  cases receiver with
  | text text =>
      simp only [dispatch]
      split
      · split
        · exact .proceed _ _ rfl
        · exact .fault _
      · exact .fault _
  | object address =>
      rw [dispatch_object]
      split
      · exact .call _ _ _ _ _ rfl
      · exact .fault _
  | _ => exact .fault _

theorem popInts_cases (frame : Frame) :
    (∃ cause, ∀ offset, Frame.popInts { frame with offset } = .error cause) ∨
      ∃ ints stack, ∀ offset,
        Frame.popInts { frame with offset } = .ok (ints, { frame with stack, offset }) := by
  obtain ⟨image, routine, locals, stack, before, keepsResult⟩ := frame
  cases stack with
  | nil => exact .inl ⟨.stackUnderflow image.name routine.name, fun offset => rfl⟩
  | cons right rest =>
      cases right with
      | int right =>
          cases rest with
          | nil => exact .inl ⟨.stackUnderflow image.name routine.name, fun offset => rfl⟩
          | cons left rest =>
              cases left with
              | int left => exact .inr ⟨(left, right), rest, fun offset => rfl⟩
              | _ => exact .inl ⟨_, fun offset => rfl⟩
      | _ => exact .inl ⟨_, fun offset => rfl⟩

theorem perform_does (program : Program) (frame : Frame) (world : World)
    (instruction : Instruction) :
    Does frame world instruction.isReturn (perform program frame world instruction) := by
  cases instruction with
  | const value => exact .proceed _ _ rfl
  | newString text => exact .proceed _ _ rfl
  | load slot =>
      simp only [perform]
      split
      · exact .proceed _ _ rfl
      · exact .fault _
  | getField owner field =>
      simp only [perform, readField, Frame.popObject, Frame.pop]
      cases frame.stack with
      | nil => exact .fault _
      | cons value rest =>
          cases value with
          | object address =>
              simp only [bind, Except.bind]
              split
              · exact .proceed _ _ rfl
              · exact .fault _
          | _ => exact .fault _
  | putField owner field =>
      simp only [perform, writeField, Frame.popObject, Frame.pop]
      cases frame.stack with
      | nil => exact .fault _
      | cons value rest =>
          cases rest with
          | nil => exact .fault _
          | cons target rest =>
              cases target with
              | object address =>
                  simp only [bind, Except.bind]
                  split
                  · exact .proceed _ _ rfl
                  · exact .fault _
              | _ => exact .fault _
  | arithmetic operator =>
      simp only [perform]
      rcases popInts_cases frame with ⟨cause, failed⟩ | ⟨ints, stack, popped⟩
      · rw [failed frame.offset]
        exact .fault _
      · rw [popped frame.offset]
        exact .proceed _ _ rfl
  | virtualCall owner name args returns =>
      simp only [perform, callMethod_eq]
      split
      · exact .crash
      · split
        · exact .fault _
        · split
          · exact .fault _
          · exact dispatch_does _ _ _ _ _ _ _
  | ret kind =>
      simp only [perform, leave]
      split
      · split
        · exact .finish _
        · exact .fault _
      · split
        · exact .fault _
        · simp only [Frame.pop]
          cases frame.stack with
          | nil => exact .fault _
          | cons value rest => exact .finish _
  | unknown code => exact .crash

theorem compare_cases (relates : Int64 → Int64 → Bool) (frame : Frame) :
    (∃ cause, ∀ offset, (do
      let ((left, right), rest) ← Frame.popInts { frame with offset }
      pure (relates left right, rest)) = .error cause) ∨
    ∃ holds stack, ∀ offset, (do
      let ((left, right), rest) ← Frame.popInts { frame with offset }
      pure (relates left right, rest)) = .ok (holds, { frame with stack, offset }) := by
  rcases popInts_cases frame with ⟨cause, failed⟩ | ⟨ints, stack, popped⟩
  · exact .inl ⟨cause, fun offset => by rw [failed]; rfl⟩
  · exact .inr ⟨relates ints.1 ints.2, stack, fun offset => by rw [popped]; rfl⟩

theorem decide_cases (cond : Cond) (frame : Frame) :
    (∃ cause, ∀ offset, cond.decide { frame with offset } = .error cause) ∨
      ∃ holds stack, ∀ offset,
        cond.decide { frame with offset } = .ok (holds, { frame with stack, offset }) := by
  cases cond with
  | none => exact .inr ⟨false, frame.stack, fun offset => rfl⟩
  | ifTrue =>
      obtain ⟨image, routine, locals, stack, before, keepsResult⟩ := frame
      cases stack with
      | nil => exact .inl ⟨.stackUnderflow image.name routine.name, fun offset => rfl⟩
      | cons value rest =>
          cases value with
          | int value => exact .inr ⟨_, rest, fun offset => rfl⟩
          | _ => exact .inl ⟨_, fun offset => rfl⟩
  | _ => exact compare_cases _ frame

theorem compare_branch (relates : Int64 → Int64 → Bool) {frame : Frame} (world : World)
    {target : Nat} (inside : target ≤ frame.routine.code.size) :
    (do
      let ((left, right), rest) ← frame.popInts
      if relates left right then pure (world, ← jumpTo rest target)
      else pure (world, .proceed rest) : Except Fault (World × Effect)) =
    match (do
      let ((left, right), rest) ← frame.popInts
      pure (relates left right, rest) : Except Fault (Bool × Frame)) with
    | .error cause => .error cause
    | .ok (holds, rest) =>
      .ok (world, .proceed (if holds then { rest with offset := target } else rest)) := by
  have jumps : ¬frame.routine.code.size < target := by omega
  rcases popInts_cases frame with ⟨cause, failed⟩ | ⟨⟨left, right⟩, stack, popped⟩
  · rw [failed frame.offset]
    rfl
  · rw [popped frame.offset]
    simp only [bind, Except.bind, pure, Except.pure]
    cases relates left right with
    | true => simp [jumpTo, jumps]
    | false => simp

theorem execute_branch {program : Program} {frame : Frame} (world : World) {cond : Cond}
    {opcode : Opcode} {target : Nat} (known : jumpOpcode? cond = some opcode)
    (inside : target ≤ frame.routine.code.size) :
    execute program frame world opcode target =
      match cond.decide frame with
      | .error cause => .error cause
      | .ok (holds, rest) =>
        .ok (world, .proceed (if holds then { rest with offset := target } else rest)) := by
  have jumps : ¬frame.routine.code.size < target := by omega
  cases cond with
  | none => simp [jumpOpcode?] at known
  | unknown code => simp [jumpOpcode?] at known
  | ifTrue =>
      obtain rfl : Opcode.jumpIfTrue = opcode := by simpa [jumpOpcode?] using known
      simp only [execute, Cond.decide, Frame.popInt, Frame.pop]
      cases frame.stack with
      | nil => rfl
      | cons value rest =>
          cases value with
          | int value =>
              simp only [bind, Except.bind, pure, Except.pure]
              by_cases zero : value = 0
              · simp [zero]
              · simp [zero, jumpTo, jumps]
          | _ => rfl
  | ifEq =>
      obtain rfl : Opcode.jumpIfEq = opcode := by simpa [jumpOpcode?] using known
      exact compare_branch _ world inside
  | ifNe =>
      obtain rfl : Opcode.jumpIfNe = opcode := by simpa [jumpOpcode?] using known
      exact compare_branch _ world inside
  | ifLt =>
      obtain rfl : Opcode.jumpIfLt = opcode := by simpa [jumpOpcode?] using known
      exact compare_branch _ world inside
  | ifLe =>
      obtain rfl : Opcode.jumpIfLe = opcode := by simpa [jumpOpcode?] using known
      exact compare_branch _ world inside
  | ifGt =>
      obtain rfl : Opcode.jumpIfGt = opcode := by simpa [jumpOpcode?] using known
      exact compare_branch _ world inside
  | ifGe =>
      obtain rfl : Opcode.jumpIfGe = opcode := by simpa [jumpOpcode?] using known
      exact compare_branch _ world inside

end Assembly

end Assay
