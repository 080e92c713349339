import Assay.Machine.Run

/-!
How runs of a machine are put together: runs one after the other, what becomes of a call once an
instruction is executed, and the independence of a call from the place at which a caller waits.
-/

namespace Assay

section Iteration

variable {σ : Type} {run : Nat → σ → σ} {property : σ → Prop}

def LeadsBy (run : Nat → σ → σ) (property : σ → Prop) (start finish : σ) : Prop :=
  ∃ fuel, run fuel start = finish ∧ ∀ earlier < fuel, property (run earlier start)

def LastsBy (run : Nat → σ → σ) (property : σ → Prop) (fuel : Nat) (start : σ) : Prop :=
  ∀ earlier ≤ fuel, property (run earlier start)

theorem LeadsBy.once {start finish : σ} (stepped : run 1 start = finish)
    (holds : property (run 0 start)) : LeadsBy run property start finish := by
  refine ⟨1, stepped, fun earlier first => ?_⟩
  obtain rfl : earlier = 0 := by omega
  exact holds

theorem before_add
    (add : ∀ first second state, run (first + second) state = run second (run first state))
    {start middle : σ} {taken more : Nat} (ran : run taken start = middle)
    (before : ∀ earlier < taken, property (run earlier start))
    (after : ∀ earlier < more, property (run earlier middle)) :
    ∀ earlier < taken + more, property (run earlier start) := by
  intro number bound
  by_cases early : number < taken
  · exact before number early
  · obtain ⟨rest, rfl⟩ := Nat.exists_eq_add_of_le (Nat.le_of_not_lt early)
    rw [add, ran]
    exact after rest (by omega)

theorem LeadsBy.trans
    (add : ∀ first second state, run (first + second) state = run second (run first state))
    {first second third : σ} (earlier : LeadsBy run property first second)
    (later : LeadsBy run property second third) : LeadsBy run property first third := by
  obtain ⟨fuel, ran, before⟩ := earlier
  obtain ⟨more, ranOn, after⟩ := later
  exact ⟨fuel + more, by rw [add, ran, ranOn], before_add add ran before after⟩

theorem LeadsBy.lasts
    (add : ∀ first second state, run (first + second) state = run second (run first state))
    {start finish : σ} {fuel : Nat} (leads : LeadsBy run property start finish)
    (lasts : LastsBy run property fuel finish) : LastsBy run property fuel start := by
  obtain ⟨taken, ran, before⟩ := leads
  have after : ∀ earlier < fuel + 1, property (run earlier finish) :=
    fun earlier bound => lasts earlier (Nat.le_of_lt_succ bound)
  exact fun number bound => before_add add ran before after number (by omega)

end Iteration

end Assay

namespace Assay.Machine

open Bytecode

variable {machine : Machine}

def absorb (machine : Machine) (frame : Frame) (callers : List Frame) (world : World) :
    Except Fault (World × Effect) → State
  | .error cause => failWith (frame :: callers) world cause
  | .ok (world, .proceed frame) => .running frame callers world
  | .ok (world, .call caller image routine args) =>
    machine.enterCall (caller :: callers) world image routine args
  | .ok (world, .finish value) => deliver value world callers
  | .ok (world, .crash) => .stopped .crashed world

theorem step_running (frame : Frame) (callers : List Frame) (world : World) :
    machine.step (.running frame callers world) =
      machine.absorb frame callers world (frame.advance machine.program world) := by
  rw [step]
  rcases frame.advance machine.program world with cause | ⟨after, effect⟩
  · rfl
  · cases effect <;> rfl

@[simp] theorem step_stopped (outcome : Outcome) (world : World) :
    machine.step (.stopped outcome world) = .stopped outcome world := rfl

@[simp] theorem run_zero (state : State) : machine.run 0 state = state := rfl

@[simp] theorem run_stopped (fuel : Nat) (outcome : Outcome) (world : World) :
    machine.run fuel (.stopped outcome world) = .stopped outcome world := by
  cases fuel <;> rfl

theorem run_succ (fuel : Nat) (state : State) :
    machine.run (fuel + 1) state = machine.run fuel (machine.step state) := by
  cases state with
  | running frame callers world => rfl
  | stopped outcome world => simp

theorem run_add (first second : Nat) (state : State) :
    machine.run (first + second) state = machine.run second (machine.run first state) := by
  induction first generalizing state with
  | zero => simp
  | succ first ih =>
      rw [Nat.succ_add, run_succ, run_succ, ih]

theorem run_one (state : State) : machine.run 1 state = machine.step state := by
  rw [run_succ, run_zero]

theorem settle_eq_some_iff (fuel : Nat) (state : State) (outcome : Outcome) (world : World) :
    machine.settle fuel state = some (outcome, world) ↔
      machine.run fuel state = .stopped outcome world := by
  unfold settle
  split
  · rename_i found
    rw [found]
    simp
  · rename_i found
    rw [found]
    simp

theorem run_stopped_of_le {fuel more : Nat} {state : State} {outcome : Outcome} {world : World}
    (finished : machine.run fuel state = .stopped outcome world) (enough : fuel ≤ more) :
    machine.run more state = .stopped outcome world := by
  obtain ⟨extra, rfl⟩ := Nat.exists_eq_add_of_le enough
  rw [run_add, finished, run_stopped]

theorem enterCall_ok {callers : List Frame} {world : World} {image : ClassImage} {routine : Routine}
    {args : List Value} (params : routine.params = args.length)
    (room : callers.length < machine.frameLimit) (place : Frame.hasPlace routine = true) :
    machine.enterCall callers world image routine args =
      .running (Frame.enter image routine args) callers world := by
  have notFull : ¬machine.frameLimit ≤ callers.length := by omega
  simp only [enterCall, params, ne_eq, not_true_eq_false, if_false, notFull, place, if_true]

theorem enter_receiver (image : ClassImage) (routine : Routine) (value : Value) :
    (Frame.enter image routine [value]).locals[0]? = some value := by
  rw [Frame.enter, Array.getElem?_append_left (by simp)]
  rfl

/-- Puts the frame that has `depth` callers at another place of its code. -/
def moveFrame (depth offset : Nat) : List Frame → List Frame
  | [] => []
  | frame :: callers =>
    if callers.length = depth then { frame with offset } :: callers
    else frame :: moveFrame depth offset callers

def State.move (depth offset : Nat) : State → State
  | .running frame callers world =>
    if callers.length = depth then .running { frame with offset } callers world
    else .running frame (moveFrame depth offset callers) world
  | .stopped outcome world => .stopped outcome world

@[simp] theorem moveFrame_length (depth offset : Nat) (frames : List Frame) :
    (moveFrame depth offset frames).length = frames.length := by
  induction frames with
  | nil => rfl
  | cons frame callers ih =>
      simp only [moveFrame]
      split <;> simp [ih]

@[simp] theorem name_at (frame : Frame) (offset : Nat) :
    Frame.name { frame with offset } = frame.name := rfl

@[simp] theorem moveFrame_names (depth offset : Nat) (frames : List Frame) :
    (moveFrame depth offset frames).map Frame.name = frames.map Frame.name := by
  induction frames with
  | nil => rfl
  | cons frame callers ih =>
      simp only [moveFrame]
      split <;> simp [ih]

theorem failWith_eq_of_names {frames others : List Frame}
    (same : frames.map Frame.name = others.map Frame.name) (world : World) (cause : Fault) :
    failWith frames world cause = failWith others world cause := by
  simp only [failWith, List.map_reverse, same]

theorem enterCall_move {depth offset : Nat} {callers : List Frame} (inside : depth < callers.length)
    (caller : Frame) (world : World) (image : ClassImage) (routine : Routine) (args : List Value) :
    machine.enterCall (caller :: moveFrame depth offset callers) world image routine args =
      (machine.enterCall (caller :: callers) world image routine args).move depth offset := by
  have names : (caller :: moveFrame depth offset callers).map Frame.name =
      (caller :: callers).map Frame.name := by simp
  have notHere : callers.length ≠ depth := by omega
  have notAbove : (caller :: callers).length ≠ depth := by simp only [List.length_cons]; omega
  unfold enterCall
  split
  · exact failWith_eq_of_names names _ _
  · simp only [List.length_cons, moveFrame_length]
    split
    · exact failWith_eq_of_names names _ _
    · split
      · simp only [State.move, notAbove, if_false, moveFrame, notHere]
      · rfl

theorem deliver_move {depth offset : Nat} {callers : List Frame} (inside : depth < callers.length)
    (value : Value) (world : World) :
    deliver value world (moveFrame depth offset callers) =
      (deliver value world callers).move depth offset := by
  cases callers with
  | nil => simp at inside
  | cons caller rest =>
      by_cases here : rest.length = depth
      · simp only [moveFrame, here, if_true, deliver, State.move]
        split <;> rfl
      · simp only [moveFrame, here, if_false, deliver, State.move]

theorem step_move {depth offset : Nat} {callers : List Frame} (inside : depth < callers.length)
    (frame : Frame) (world : World) :
    machine.step ((State.running frame callers world).move depth offset) =
      (machine.step (.running frame callers world)).move depth offset := by
  have notHere : callers.length ≠ depth := by omega
  have moved : (State.running frame callers world).move depth offset =
      .running frame (moveFrame depth offset callers) world := by
    simp only [State.move, notHere, if_false]
  rw [moved, step_running, step_running]
  rcases frame.advance machine.program world with cause | ⟨world, effect⟩
  · exact failWith_eq_of_names (by simp) _ _
  · cases effect with
    | proceed frame => simp only [absorb, State.move, notHere, if_false]
    | call caller image routine args => exact enterCall_move inside ..
    | finish value => exact deliver_move inside ..
    | crash => rfl

def frameAt? (depth : Nat) : List Frame → Option Frame
  | [] => none
  | frame :: callers => if callers.length = depth then some frame else frameAt? depth callers

theorem step_above {depth : Nat} {frame next own : Frame} {callers others : List Frame}
    {world after : World} (inside : depth < callers.length)
    (waits : frameAt? depth (frame :: callers) = some own)
    (stepped : machine.step (.running frame callers world) = .running next others after) :
    depth ≤ others.length ∧ ∃ later, frameAt? depth (next :: others) = some later ∧
      later.image = own.image ∧ later.routine = own.routine := by
  have notHere : callers.length ≠ depth := by omega
  simp only [frameAt?, notHere, if_false] at waits
  rw [step_running] at stepped
  generalize frame.advance machine.program world = result at stepped
  rcases result with cause | ⟨middle, effect⟩
  · simp [absorb, failWith] at stepped
  · cases effect with
    | proceed frame =>
        simp only [absorb, State.running.injEq] at stepped
        obtain ⟨rfl, rfl, rfl⟩ := stepped
        exact ⟨by omega, own, by simp only [frameAt?, notHere, if_false, waits], rfl, rfl⟩
    | call caller image routine args =>
        simp only [absorb, enterCall] at stepped
        split at stepped
        · simp [failWith] at stepped
        · split at stepped
          · simp [failWith] at stepped
          · split at stepped
            · simp only [State.running.injEq] at stepped
              obtain ⟨rfl, rfl, rfl⟩ := stepped
              have notAbove : (caller :: callers).length ≠ depth := by
                simp only [List.length_cons]
                omega
              refine ⟨by simp only [List.length_cons]; omega, own, ?_, rfl, rfl⟩
              simp only [frameAt?, notAbove, notHere, if_false, waits]
            · simp at stepped
    | finish value =>
        cases callers with
        | nil => simp at inside
        | cons caller rest =>
            simp only [absorb, deliver, State.running.injEq] at stepped
            obtain ⟨rfl, rfl, rfl⟩ := stepped
            simp only [List.length_cons] at inside
            refine ⟨by omega, ?_⟩
            by_cases here : rest.length = depth
            · simp only [frameAt?, here, if_true, Option.some.injEq] at waits ⊢
              subst waits
              refine ⟨_, rfl, ?_⟩
              split
              · exact ⟨rfl, rfl⟩
              · exact ⟨rfl, rfl⟩
            · simp only [frameAt?, here, if_false] at waits ⊢
              exact ⟨own, waits, rfl, rfl⟩
    | crash => simp [absorb] at stepped

end Assay.Machine
