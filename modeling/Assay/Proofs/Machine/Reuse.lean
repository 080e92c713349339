import Assay.Proofs.Machine.Effects
import Assay.Proofs.Machine.Safety

/-!
A machine that is used for one request after the other. It carries out calls one inside the other and
counts those that are active: the count goes up with each call and down when the call ends, in whatever
way. It answers like the machine that keeps its frames in a list, and after each request the count stands
where it stood before, so nothing but the world is left of a request.
-/

namespace Assay.Machine

open Bytecode

/-- A machine between requests: the number of calls that count as active, and the world. -/
structure Engine where
  depth : Int
  world : World

namespace Engine

def new (world : World) : Engine := { depth := 0, world }

def enter (engine : Engine) : Engine := { engine with depth := engine.depth + 1 }

def leave (engine : Engine) : Engine := { engine with depth := engine.depth - 1 }

theorem eq_new {engine : Engine} (idle : engine.depth = 0) : engine = .new engine.world := by
  obtain ⟨depth, world⟩ := engine
  cases idle
  rfl

end Engine

def Outcome.fault (cause : Fault) : Outcome := .failed { active := [], cause }

def Outcome.within (name : String) : Outcome → Outcome
  | .failed failure => .failed { failure with active := name :: failure.active }
  | outcome => outcome

def Frame.receive (caller : Frame) (value : Value) : Frame :=
  if caller.keepsResult then caller.push value else caller

inductive Task
  | call (image : ClassImage) (routine : Routine) (args : List Value)
  | execute (frame : Frame)

/-- Carries out a task; none if it takes more than `fuel` instructions and calls. -/
def work (machine : Machine) : Nat → Engine → Task → Option (Outcome × Engine)
  | 0, _, _ => none
  | fuel + 1, engine, .call image routine args =>
    if (args.length : Int) ≠ routine.params then
      some (.fault (.wrongArgumentCount image.name routine.name routine.params args.length), engine)
    else if machine.frameLimit ≤ engine.depth then some (.fault .tooManyFrames, engine)
    else if Frame.hasPlace routine then
      let frame := Frame.enter image routine args
      (machine.work fuel engine.enter (.execute frame)).map fun (outcome, engine) =>
        (outcome.within frame.name, engine.leave)
    else some (.crashed, engine.enter.leave)
  | fuel + 1, engine, .execute frame =>
    match frame.advance machine.program engine.world with
    | .error cause => some (.fault cause, engine)
    | .ok (world, .proceed frame) => machine.work fuel { engine with world } (.execute frame)
    | .ok (world, .call caller image routine args) =>
      match machine.work fuel { engine with world } (.call image routine args) with
      | some (.returned value, engine) => machine.work fuel engine (.execute (caller.receive value))
      | ended => ended
    | .ok (world, .finish value) => some (.returned value, { engine with world })
    | .ok (world, .crash) => some (.crashed, { engine with world })

def handle (machine : Machine) (fuel : Nat) (engine : Engine) (owner routine : String)
    (args : List Value) : Option (Outcome × Engine) :=
  match machine.program.lookup owner routine with
  | .error problem => some (.fault (.lookup problem), engine)
  | .ok (image, routine) => machine.work fuel engine (.call image routine args)

def attend (machine : Machine) (fuel : Nat) (engine : Engine) (request : Request) :
    Option (Outcome × Engine) :=
  let handled := match request with
    | .run args =>
      machine.handle fuel engine machine.program.entry.owner machine.program.entry.routine
        [.strings args]
    | .call owner routine args => machine.handle fuel engine owner routine args
  handled.map fun (outcome, engine) => (request.answer outcome, engine)

/-- Attends to requests one after the other, each on the machine that the one before has left. -/
def attendAll (machine : Machine) (fuel : Nat) :
    Engine → List Request → Option (List (Outcome × Engine))
  | _, [] => some []
  | engine, request :: rest =>
    match machine.attend fuel engine request with
    | none => none
    | some (outcome, engine) => (machine.attendAll fuel engine rest).map ((outcome, engine) :: ·)

/-- Attends to each request on a new machine in the world that the one before has left. -/
def attendAfresh (machine : Machine) (fuel : Nat) :
    World → List Request → Option (List (Outcome × Engine))
  | _, [] => some []
  | world, request :: rest =>
    match machine.attend fuel (.new world) request with
    | none => none
    | some (outcome, engine) =>
      (machine.attendAfresh fuel engine.world rest).map ((outcome, engine) :: ·)

section Tasks

variable {machine : Machine} {fuel : Nat} {engine after : Engine} {task : Task} {outcome : Outcome}

/-- How a task comes to its outcome, with the tasks in it carried out within `fuel`. -/
inductive Worked (machine : Machine) (fuel : Nat) : Engine → Task → Outcome → Engine → Prop
  | miscounted {engine : Engine} {image : ClassImage} {routine : Routine} {args : List Value} :
      (args.length : Int) ≠ routine.params →
      Worked machine fuel engine (.call image routine args)
        (.fault (.wrongArgumentCount image.name routine.name routine.params args.length)) engine
  | full {engine : Engine} {image : ClassImage} {routine : Routine} {args : List Value} :
      (args.length : Int) = routine.params → machine.frameLimit ≤ engine.depth →
      Worked machine fuel engine (.call image routine args) (.fault .tooManyFrames) engine
  | called {engine last : Engine} {image : ClassImage} {routine : Routine} {args : List Value}
      {inner : Outcome} :
      (args.length : Int) = routine.params → engine.depth < machine.frameLimit →
      Frame.hasPlace routine = true →
      machine.work fuel engine.enter (.execute (Frame.enter image routine args)) =
        some (inner, last) →
      Worked machine fuel engine (.call image routine args)
        (inner.within (Frame.enter image routine args).name) last.leave
  | noPlace {engine : Engine} {image : ClassImage} {routine : Routine} {args : List Value} :
      (args.length : Int) = routine.params → engine.depth < machine.frameLimit →
      Frame.hasPlace routine = false →
      Worked machine fuel engine (.call image routine args) .crashed engine.enter.leave
  | faulted {engine : Engine} {frame : Frame} {cause : Fault} :
      frame.advance machine.program engine.world = .error cause →
      Worked machine fuel engine (.execute frame) (.fault cause) engine
  | proceeded {engine after : Engine} {frame next : Frame} {world : World} {outcome : Outcome} :
      frame.advance machine.program engine.world = .ok (world, .proceed next) →
      machine.work fuel { engine with world } (.execute next) = some (outcome, after) →
      Worked machine fuel engine (.execute frame) outcome after
  | finished {engine : Engine} {frame : Frame} {world : World} {value : Value} :
      frame.advance machine.program engine.world = .ok (world, .finish value) →
      Worked machine fuel engine (.execute frame) (.returned value) { engine with world }
  | crashed {engine : Engine} {frame : Frame} {world : World} :
      frame.advance machine.program engine.world = .ok (world, .crash) →
      Worked machine fuel engine (.execute frame) .crashed { engine with world }
  | resumed {engine middle after : Engine} {frame caller : Frame} {world : World}
      {image : ClassImage} {routine : Routine} {args : List Value} {value : Value}
      {outcome : Outcome} :
      frame.advance machine.program engine.world = .ok (world, .call caller image routine args) →
      machine.work fuel { engine with world } (.call image routine args) =
        some (.returned value, middle) →
      machine.work fuel middle (.execute (caller.receive value)) = some (outcome, after) →
      Worked machine fuel engine (.execute frame) outcome after
  | abandoned {engine after : Engine} {frame caller : Frame} {world : World} {image : ClassImage}
      {routine : Routine} {args : List Value} {outcome : Outcome} :
      frame.advance machine.program engine.world = .ok (world, .call caller image routine args) →
      machine.work fuel { engine with world } (.call image routine args) = some (outcome, after) →
      (∀ value, outcome ≠ .returned value) →
      Worked machine fuel engine (.execute frame) outcome after

theorem worked_call {image : ClassImage} {routine : Routine} {args : List Value}
    (done : machine.work (fuel + 1) engine (.call image routine args) = some (outcome, after)) :
    Worked machine fuel engine (.call image routine args) outcome after := by
  simp only [work] at done
  split at done
  · rename_i unequal
    cases done
    exact .miscounted unequal
  · rename_i equal
    replace equal := Decidable.not_not.mp equal
    split at done
    · rename_i full
      cases done
      exact .full equal full
    · rename_i room
      replace room : engine.depth < machine.frameLimit := by omega
      split at done
      · rename_i place
        obtain ⟨⟨inner, last⟩, worked, same⟩ := Option.map_eq_some_iff.mp done
        cases same
        exact .called equal room place worked
      · rename_i noPlace
        cases done
        exact .noPlace equal room (Bool.not_eq_true _ ▸ noPlace)

theorem worked_execute {frame : Frame}
    (done : machine.work (fuel + 1) engine (.execute frame) = some (outcome, after)) :
    Worked machine fuel engine (.execute frame) outcome after := by
  simp only [work] at done
  rcases advanced : frame.advance machine.program engine.world with cause | ⟨world, effect⟩
  · rw [advanced] at done
    cases done
    exact .faulted advanced
  · rw [advanced] at done
    cases effect with
    | proceed next => exact .proceeded advanced done
    | finish value =>
        cases done
        exact .finished advanced
    | crash =>
        cases done
        exact .crashed advanced
    | call caller image routine args =>
        simp only at done
        rcases called : machine.work fuel { engine with world } (.call image routine args) with
          _ | ⟨inner, middle⟩
        · rw [called] at done
          cases done
        · rw [called] at done
          cases inner with
          | returned value => exact .resumed advanced called done
          | failed failure =>
              cases done
              exact .abandoned advanced called (by simp)
          | crashed =>
              cases done
              exact .abandoned advanced called (by simp)

theorem Worked.work (worked : Worked machine fuel engine task outcome after) :
    machine.work (fuel + 1) engine task = some (outcome, after) := by
  cases worked with
  | miscounted unequal => simp only [Machine.work, if_pos unequal]
  | full equal full => rw [Machine.work, if_neg (Decidable.not_not.mpr equal), if_pos full]
  | called equal room place inside =>
      rw [Machine.work, if_neg (Decidable.not_not.mpr equal), if_neg (Int.not_le.mpr room),
        if_pos place]
      simp only [inside, Option.map_some]
  | noPlace equal room noPlace =>
      rw [Machine.work, if_neg (Decidable.not_not.mpr equal), if_neg (Int.not_le.mpr room), noPlace]
      rfl
  | faulted advanced => simp only [Machine.work, advanced]
  | proceeded advanced onward => simp only [Machine.work, advanced, onward]
  | finished advanced => simp only [Machine.work, advanced]
  | crashed advanced => simp only [Machine.work, advanced]
  | resumed advanced called onward => simp only [Machine.work, advanced, called, onward]
  | abandoned advanced called ended =>
      simp only [Machine.work, advanced, called]
      cases outcome with
      | returned value => exact absurd rfl (ended value)
      | failed failure => rfl
      | crashed => rfl

theorem work_succ_iff : machine.work (fuel + 1) engine task = some (outcome, after) ↔
    Worked machine fuel engine task outcome after := by
  refine ⟨fun done => ?_, Worked.work⟩
  cases task with
  | call image routine args => exact worked_call done
  | execute frame => exact worked_execute done

theorem work_of_le {more : Nat} (done : machine.work fuel engine task = some (outcome, after))
    (enough : fuel ≤ more) : machine.work more engine task = some (outcome, after) := by
  induction fuel generalizing more engine task outcome after with
  | zero => cases done
  | succ fuel ih =>
      obtain ⟨more, rfl⟩ : ∃ less, more = less + 1 := ⟨more - 1, by omega⟩
      replace enough := Nat.le_of_succ_le_succ enough
      rw [work_succ_iff] at done ⊢
      cases done with
      | miscounted unequal => exact .miscounted unequal
      | full equal full => exact .full equal full
      | called equal room place inside => exact .called equal room place (ih inside enough)
      | noPlace equal room noPlace => exact .noPlace equal room noPlace
      | faulted advanced => exact .faulted advanced
      | proceeded advanced onward => exact .proceeded advanced (ih onward enough)
      | finished advanced => exact .finished advanced
      | crashed advanced => exact .crashed advanced
      | resumed advanced called onward =>
          exact .resumed advanced (ih called enough) (ih onward enough)
      | abandoned advanced called ended => exact .abandoned advanced (ih called enough) ended

theorem work_depth (done : machine.work fuel engine task = some (outcome, after)) :
    after.depth = engine.depth := by
  induction fuel generalizing engine task outcome after with
  | zero => cases done
  | succ fuel ih =>
      rw [work_succ_iff] at done
      cases done with
      | miscounted unequal => rfl
      | full equal full => rfl
      | called equal room place inside =>
          have kept := ih inside
          simp only [Engine.leave, Engine.enter] at kept ⊢
          omega
      | noPlace equal room noPlace =>
          simp only [Engine.leave, Engine.enter]
          omega
      | faulted advanced => rfl
      | proceeded advanced onward =>
          have kept := ih onward
          exact kept
      | finished advanced => rfl
      | crashed advanced => rfl
      | resumed advanced called onward =>
          have kept := ih called
          exact (ih onward).trans kept
      | abandoned advanced called ended =>
          have kept := ih called
          exact kept

end Tasks

/-! Tasks on top of waiting callers, and the same calls step by step. -/

def Task.start (machine : Machine) (callers : List Frame) (world : World) : Task → State
  | .call image routine args => machine.enterCall callers world image routine args
  | .execute frame => .running frame callers world

def Task.depth (callers : List Frame) : Task → Int
  | .call _ _ _ => callers.length
  | .execute _ => callers.length + 1

theorem Task.depth_cons (caller : Frame) (callers : List Frame) (frame : Frame) (image : ClassImage)
    (routine : Routine) (args : List Value) :
    (Task.call image routine args).depth (caller :: callers) =
      (Task.execute frame).depth callers := by
  simp only [Task.depth, List.length_cons]
  omega

def Task.passedOn : Task → Outcome → Outcome
  | .call _ _ _, outcome => outcome
  | .execute frame, outcome => outcome.within frame.name

def concluded (callers : List Frame) (world : World) : Outcome → State
  | .returned value => deliver value world callers
  | .failed failure =>
    .stopped (.failed { failure with active := callers.reverse.map Frame.name ++ failure.active }) world
  | .crashed => .stopped .crashed world

theorem concluded_nil (world : World) (outcome : Outcome) :
    concluded [] world outcome = .stopped outcome world := by
  cases outcome <;> rfl

theorem concluded_fault (callers : List Frame) (world : World) (cause : Fault) :
    concluded callers world (.fault cause) = failWith callers world cause := by
  simp only [concluded, Outcome.fault, failWith, List.append_nil]

theorem concluded_cons (caller : Frame) (callers : List Frame) (world : World) {outcome : Outcome}
    (ended : ∀ value, outcome ≠ .returned value) :
    concluded (caller :: callers) world outcome =
      concluded callers world (outcome.within caller.name) := by
  cases outcome with
  | returned value => exact absurd rfl (ended value)
  | failed failure =>
      simp only [concluded, Outcome.within, List.reverse_cons, List.map_append, List.map_cons,
        List.map_nil, List.append_assoc, List.singleton_append]
  | crashed => rfl

theorem concluded_within_fault (frame : Frame) (callers : List Frame) (world : World) (cause : Fault) :
    concluded callers world ((Outcome.fault cause).within frame.name) =
      failWith (frame :: callers) world cause := by
  rw [← concluded_fault, concluded_cons frame callers world (by simp [Outcome.fault])]

section Refused

variable {machine : Machine} {callers : List Frame} {world : World} {image : ClassImage}
  {routine : Routine} {args : List Value}

theorem enterCall_miscounted (unequal : (args.length : Int) ≠ routine.params) :
    machine.enterCall callers world image routine args = concluded callers world
      (.fault (.wrongArgumentCount image.name routine.name routine.params args.length)) := by
  rw [concluded_fault, enterCall, if_pos unequal]

theorem enterCall_full (equal : (args.length : Int) = routine.params)
    (full : machine.frameLimit ≤ callers.length) :
    machine.enterCall callers world image routine args =
      concluded callers world (.fault .tooManyFrames) := by
  rw [concluded_fault, enterCall, if_neg (Decidable.not_not.mpr equal), if_pos full]

theorem enterCall_noPlace (equal : (args.length : Int) = routine.params)
    (room : callers.length < machine.frameLimit) (noPlace : Frame.hasPlace routine = false) :
    machine.enterCall callers world image routine args = concluded callers world .crashed := by
  rw [enterCall, if_neg (Decidable.not_not.mpr equal), if_neg (Nat.not_le.mpr room), noPlace]
  rfl

end Refused

theorem run_stopped_split {machine : Machine} {first total : Nat} {state middle : State}
    {outcome : Outcome} {world : World} (ran : machine.run first state = middle)
    (within : first ≤ total) (ended : machine.run total state = .stopped outcome world) :
    machine.run (total - first) middle = .stopped outcome world := by
  obtain ⟨rest, rfl⟩ := Nat.exists_eq_add_of_le within
  rw [run_add, ran] at ended
  rw [Nat.add_sub_cancel_left, ended]

section Steps

variable {machine : Machine} {engine after : Engine} {task : Task} {outcome : Outcome}
  {callers : List Frame}

theorem advance_name {frame next : Frame} {world later : World}
    (advanced : frame.advance machine.program world = .ok (later, .proceed next)) :
    next.name = frame.name := by
  have behaves := advance_behaves machine.program frame world
  rw [advanced] at behaves
  cases behaves with
  | proceed _ stays => simp only [Frame.name, stays.image, stays.routine]

theorem advance_caller_name {frame caller : Frame} {world later : World} {image : ClassImage}
    {routine : Routine} {args : List Value}
    (advanced : frame.advance machine.program world = .ok (later, .call caller image routine args)) :
    caller.name = frame.name := by
  have behaves := advance_behaves machine.program frame world
  rw [advanced] at behaves
  cases behaves with
  | call _ stays _ => simp only [Frame.name, stays.image, stays.routine]

theorem receive_name (caller : Frame) (value : Value) : (caller.receive value).name = caller.name := by
  unfold Frame.receive
  split <;> rfl

theorem run_call {frame caller : Frame} {world later : World} {image : ClassImage}
    {routine : Routine} {args : List Value} {steps : Nat} {state : State}
    (advanced : frame.advance machine.program world = .ok (later, .call caller image routine args))
    (ran : machine.run steps ((Task.call image routine args).start machine (caller :: callers) later) =
      state) :
    machine.run (steps + 1) (.running frame callers world) = state := by
  rw [run_succ, step_running, advanced]
  exact ran

/-- What is carried out call by call is also carried out step by step, on top of any callers that are as
many as calls are counted. -/
theorem work_steps {fuel : Nat} (done : machine.work fuel engine task = some (outcome, after))
    (counted : engine.depth = task.depth callers) :
    ∃ steps, machine.run steps (task.start machine callers engine.world) =
      concluded callers after.world (task.passedOn outcome) := by
  induction fuel generalizing engine task outcome after callers with
  | zero => cases done
  | succ fuel ih =>
      rw [work_succ_iff] at done
      cases done with
      | miscounted unequal => exact ⟨0, enterCall_miscounted unequal⟩
      | full equal full =>
          simp only [Task.depth] at counted
          have isFull : machine.frameLimit ≤ callers.length := by omega
          exact ⟨0, enterCall_full equal isFull⟩
      | called equal room place inside =>
          simp only [Task.depth] at counted
          have hasRoom : callers.length < machine.frameLimit := by omega
          have entered : engine.enter.depth = callers.length + 1 := by
            simp only [Engine.enter, counted]
          rw [Task.start, enterCall_ok equal.symm hasRoom place]
          exact ih inside entered
      | noPlace equal room noPlace =>
          simp only [Task.depth] at counted
          have hasRoom : callers.length < machine.frameLimit := by omega
          exact ⟨0, enterCall_noPlace equal hasRoom noPlace⟩
      | faulted advanced =>
          refine ⟨1, ?_⟩
          rw [Task.start, Task.passedOn, run_one, step_running, advanced, concluded_within_fault]
          rfl
      | proceeded advanced onward =>
          obtain ⟨steps, ran⟩ := ih onward counted
          refine ⟨steps + 1, ?_⟩
          rw [Task.start, Task.passedOn, run_succ, step_running, advanced, ← advance_name advanced]
          exact ran
      | finished advanced =>
          refine ⟨1, ?_⟩
          rw [Task.start, run_one, step_running, advanced]
          rfl
      | crashed advanced =>
          refine ⟨1, ?_⟩
          rw [Task.start, run_one, step_running, advanced]
          rfl
      | @resumed _ _ frame caller _ image routine args _ _ advanced called onward =>
          have nested : engine.depth = (Task.call image routine args).depth (caller :: callers) :=
            counted.trans (Task.depth_cons caller callers frame image routine args).symm
          obtain ⟨steps, ran⟩ := ih called nested
          obtain ⟨more, ranOn⟩ := ih onward ((work_depth called).trans counted)
          refine ⟨steps + 1 + more, ?_⟩
          rw [Task.start, Task.passedOn, run_add, run_call advanced ran,
            ← advance_caller_name advanced, ← receive_name]
          exact ranOn
      | @abandoned _ frame caller _ image routine args _ advanced called ended =>
          have nested : engine.depth = (Task.call image routine args).depth (caller :: callers) :=
            counted.trans (Task.depth_cons caller callers frame image routine args).symm
          obtain ⟨steps, ran⟩ := ih called nested
          refine ⟨steps + 1, ?_⟩
          rw [Task.start, Task.passedOn, run_call advanced ran, ← advance_caller_name advanced]
          exact concluded_cons caller callers _ ended

def Finishes (machine : Machine) (steps : Nat) (callers : List Frame) (engine : Engine)
    (task : Task) : Prop :=
  ∃ fuel outcome last, machine.work fuel engine task = some (outcome, last) ∧
    ∃ used ≤ steps, machine.run used (task.start machine callers engine.world) =
      concluded callers last.world (task.passedOn outcome)

theorem call_finishes {steps : Nat} {image : ClassImage} {routine : Routine} {args : List Value}
    {world : World} (counted : engine.depth = callers.length)
    (executed : ∀ {engine : Engine} {frame : Frame}, engine.depth = callers.length + 1 →
      machine.run steps (.running frame callers engine.world) = .stopped outcome world →
      machine.Finishes steps callers engine (.execute frame))
    (stopped : machine.run steps (machine.enterCall callers engine.world image routine args) =
      .stopped outcome world) :
    machine.Finishes steps callers engine (.call image routine args) := by
  have refused : ∀ {result last}, Worked machine 0 engine (.call image routine args) result last →
      machine.enterCall callers engine.world image routine args =
        concluded callers last.world result →
      machine.Finishes steps callers engine (.call image routine args) :=
    fun worked same => ⟨1, _, _, worked.work, 0, Nat.zero_le _, same⟩
  by_cases params : (args.length : Int) = routine.params
  · by_cases room : machine.frameLimit ≤ engine.depth
    · have full : machine.frameLimit ≤ callers.length := by omega
      exact refused (.full params room) (enterCall_full params full)
    · replace room : engine.depth < machine.frameLimit := Int.not_le.mp room
      have hasRoom : callers.length < machine.frameLimit := by omega
      cases place : Frame.hasPlace routine with
      | true =>
          have entered : machine.enterCall callers engine.world image routine args =
              .running (Frame.enter image routine args) callers engine.world :=
            enterCall_ok params.symm hasRoom place
          rw [entered] at stopped
          have deeper : engine.enter.depth = callers.length + 1 := by
            simp only [Engine.enter, counted]
          obtain ⟨fuel, inner, last, worked, used, within, ran⟩ := executed deeper stopped
          refine ⟨fuel + 1, _, _, (Worked.called params room place worked).work, used, within, ?_⟩
          rw [Task.start, entered]
          exact ran
      | false =>
          exact refused (.noPlace params room place) (enterCall_noPlace params hasRoom place)
  · exact refused (.miscounted params) (enterCall_miscounted params)

theorem execute_finishes {steps : Nat} {frame : Frame} {world : World}
    (counted : engine.depth = callers.length + 1)
    (stopped : machine.run steps (.running frame callers engine.world) = .stopped outcome world) :
    machine.Finishes steps callers engine (.execute frame) := by
  induction steps using Nat.strongRecOn generalizing engine frame callers outcome world with
  | ind steps ih =>
      cases steps with
      | zero => cases stopped
      | succ steps =>
          have ended : ∀ {result last}, Worked machine 0 engine (.execute frame) result last →
              machine.step (.running frame callers engine.world) =
                concluded callers last.world (result.within frame.name) →
              machine.Finishes (steps + 1) callers engine (.execute frame) :=
            fun worked same => ⟨1, _, _, worked.work, 1, Nat.le_add_left 1 steps, same⟩
          rcases advanced : frame.advance machine.program engine.world with cause | ⟨world, effect⟩
          · refine ended (.faulted advanced) ?_
            rw [step_running, advanced, concluded_within_fault]
            rfl
          · cases effect with
            | proceed next =>
                rw [run_succ, step_running, advanced] at stopped
                have onward : machine.Finishes steps callers { engine with world } (.execute next) :=
                  ih steps (Nat.lt_succ_self _) counted stopped
                obtain ⟨fuel, result, last, worked, used, within, ran⟩ := onward
                refine ⟨fuel + 1, result, last, (Worked.proceeded advanced worked).work, used + 1,
                  Nat.succ_le_succ within, ?_⟩
                rw [Task.start, Task.passedOn, run_succ, step_running, advanced,
                  ← advance_name advanced]
                exact ran
            | finish value =>
                refine ended (.finished advanced) ?_
                rw [step_running, advanced]
                rfl
            | crash =>
                refine ended (.crashed advanced) ?_
                rw [step_running, advanced]
                rfl
            | call caller image routine args =>
                rw [run_succ, step_running, advanced] at stopped
                have deeper : engine.depth = (caller :: callers).length := by
                  simp only [List.length_cons, counted]
                  omega
                have inner : machine.Finishes steps (caller :: callers) { engine with world }
                    (.call image routine args) :=
                  call_finishes deeper
                    (fun counted stopped => ih steps (Nat.lt_succ_self _) counted stopped) stopped
                obtain ⟨fuel, result, middle, called, used, within, ran⟩ := inner
                by_cases returns : ∃ value, result = .returned value
                · obtain ⟨value, rfl⟩ := returns
                  have left := run_stopped_split ran within stopped
                  have onward : machine.Finishes (steps - used) callers middle
                      (.execute (caller.receive value)) :=
                    ih (steps - used) (by omega) ((work_depth called).trans counted) left
                  obtain ⟨more, final, last, worked, usedOn, withinOn, ranOn⟩ := onward
                  have resumes := Worked.resumed advanced
                    (work_of_le called (Nat.le_max_left fuel more))
                    (work_of_le worked (Nat.le_max_right fuel more))
                  refine ⟨max fuel more + 1, final, last, resumes.work, used + 1 + usedOn, by omega,
                    ?_⟩
                  rw [Task.start, Task.passedOn, run_add, run_call advanced ran,
                    ← advance_caller_name advanced, ← receive_name caller value]
                  exact ranOn
                · have isOver : ∀ value, result ≠ .returned value :=
                    fun value same => returns ⟨value, same⟩
                  refine ⟨fuel + 1, result, middle, (Worked.abandoned advanced called isOver).work,
                    used + 1, by omega, ?_⟩
                  rw [Task.start, Task.passedOn, run_call advanced ran,
                    ← advance_caller_name advanced]
                  exact concluded_cons caller callers middle.world isOver

end Steps

section Requests

variable {machine : Machine} {world : World} {outcome : Outcome} {after : Engine}

theorem handle_iff (owner name : String) (args : List Value) :
    (∃ fuel, machine.handle fuel (.new world) owner name args = some (outcome, after)) ↔
      after.depth = 0 ∧ ∃ steps,
        machine.run steps (machine.call world owner name args) = .stopped outcome after.world := by
  unfold handle call
  cases machine.program.lookup owner name with
  | error problem =>
      constructor
      · rintro ⟨fuel, done⟩
        cases done
        exact ⟨rfl, 0, rfl⟩
      · rintro ⟨idle, steps, ran⟩
        simp only [failWith, run_stopped, State.stopped.injEq] at ran
        obtain ⟨rfl, same⟩ := ran
        exact ⟨0, by rw [Engine.eq_new idle, ← same]; rfl⟩
  | ok found =>
      obtain ⟨image, routine⟩ := found
      constructor
      · rintro ⟨fuel, done⟩
        refine ⟨work_depth done, ?_⟩
        have idle : (Engine.new world).depth = (Task.call image routine args).depth [] := rfl
        obtain ⟨steps, ran⟩ := work_steps done idle
        exact ⟨steps, ran.trans (concluded_nil _ _)⟩
      · rintro ⟨idle, steps, ran⟩
        have finishes : machine.Finishes steps [] (.new world) (.call image routine args) :=
          call_finishes rfl execute_finishes ran
        obtain ⟨fuel, result, last, worked, used, within, finished⟩ := finishes
        have same := ran.symm.trans (run_stopped_of_le (finished.trans (concluded_nil _ _)) within)
        simp only [State.stopped.injEq, Task.passedOn] at same
        obtain ⟨rfl, sameWorld⟩ := same
        have lastIdle : last.depth = 0 := work_depth worked
        rw [Engine.eq_new idle, sameWorld, ← Engine.eq_new lastIdle]
        exact ⟨fuel, worked⟩

theorem handle_of_le {fuel more : Nat} {engine : Engine} {owner name : String} {args : List Value}
    (done : machine.handle fuel engine owner name args = some (outcome, after))
    (enough : fuel ≤ more) : machine.handle more engine owner name args = some (outcome, after) := by
  unfold handle at done ⊢
  split at done
  · exact done
  · exact work_of_le done enough

theorem attend_eq (machine : Machine) (request : Request) : ∃ owner name args, ∀ fuel,
    (∀ engine, machine.attend fuel engine request =
      (machine.handle fuel engine owner name args).map fun (outcome, engine) =>
        (request.answer outcome, engine)) ∧
    ∀ world, machine.respond fuel world request =
      (machine.settle fuel (machine.call world owner name args)).map fun (outcome, world) =>
        (request.answer outcome, world) := by
  cases request with
  | run args => exact ⟨_, _, _, fun fuel => ⟨fun engine => rfl, fun world => rfl⟩⟩
  | call owner name args => exact ⟨_, _, _, fun fuel => ⟨fun engine => rfl, fun world => rfl⟩⟩

theorem attend_depth {fuel : Nat} {engine : Engine} {request : Request}
    (done : machine.attend fuel engine request = some (outcome, after)) :
    after.depth = engine.depth := by
  obtain ⟨owner, name, args, same⟩ := attend_eq machine request
  rw [(same fuel).1] at done
  obtain ⟨⟨inner, last⟩, handled, same⟩ := Option.map_eq_some_iff.mp done
  cases same
  unfold handle at handled
  split at handled
  · cases handled
    rfl
  · exact work_depth handled

theorem attend_of_le {fuel more : Nat} {engine : Engine} {request : Request}
    (done : machine.attend fuel engine request = some (outcome, after)) (enough : fuel ≤ more) :
    machine.attend more engine request = some (outcome, after) := by
  obtain ⟨owner, name, args, same⟩ := attend_eq machine request
  rw [(same _).1] at done ⊢
  obtain ⟨⟨inner, last⟩, handled, same⟩ := Option.map_eq_some_iff.mp done
  rw [handle_of_le handled enough, Option.map_some, same]

theorem respond_of_le {fuel more : Nat} {later : World} {request : Request}
    (done : machine.respond fuel world request = some (outcome, later)) (enough : fuel ≤ more) :
    machine.respond more world request = some (outcome, later) := by
  obtain ⟨⟨inner, last⟩, settled, same⟩ := Option.map_eq_some_iff.mp done
  rw [settle_eq_some_iff] at settled
  have still := (settle_eq_some_iff more _ _ _).mpr (run_stopped_of_le settled enough)
  rw [respond, still, Option.map_some, same]

theorem attend_new_iff (request : Request) :
    (∃ fuel, machine.attend fuel (.new world) request = some (outcome, after)) ↔
      after.depth = 0 ∧ ∃ fuel, machine.respond fuel world request = some (outcome, after.world) := by
  obtain ⟨owner, name, args, same⟩ := attend_eq machine request
  simp only [fun fuel => (same fuel).1, fun fuel => (same fuel).2, Option.map_eq_some_iff,
    Prod.exists, Prod.mk.injEq]
  constructor
  · rintro ⟨fuel, inner, last, handled, answered, rfl⟩
    obtain ⟨idle, steps, ran⟩ := (handle_iff owner name args).mp ⟨fuel, handled⟩
    exact ⟨idle, steps, inner, last.world, (settle_eq_some_iff _ _ _ _).mpr ran, answered, rfl⟩
  · rintro ⟨idle, steps, inner, last, settled, answered, rfl⟩
    have ran := (settle_eq_some_iff _ _ _ _).mp settled
    obtain ⟨fuel, handled⟩ := (handle_iff owner name args).mpr ⟨idle, steps, ran⟩
    exact ⟨fuel, inner, after, handled, answered, rfl⟩

theorem attendAll_eq_attendAfresh (machine : Machine) (fuel : Nat) (world : World)
    (requests : List Request) :
    machine.attendAll fuel (.new world) requests = machine.attendAfresh fuel world requests := by
  induction requests generalizing world with
  | nil => rfl
  | cons request rest ih =>
      rw [attendAll, attendAfresh]
      rcases attended : machine.attend fuel (.new world) request with _ | ⟨outcome, after⟩
      · rfl
      · have idle : after.depth = 0 := attend_depth attended
        rw [Engine.eq_new idle]
        simp only [ih]
        rfl

theorem attendAll_of_le {fuel more : Nat} {engine : Engine} {requests : List Request}
    {answers : List (Outcome × Engine)}
    (done : machine.attendAll fuel engine requests = some answers) (enough : fuel ≤ more) :
    machine.attendAll more engine requests = some answers := by
  induction requests generalizing engine answers with
  | nil => exact done
  | cons request rest ih =>
      rw [attendAll] at done ⊢
      rcases attended : machine.attend fuel engine request with _ | ⟨outcome, after⟩
      · rw [attended] at done
        cases done
      · rw [attended] at done
        obtain ⟨others, attendedTo, same⟩ := Option.map_eq_some_iff.mp done
        rw [attend_of_le attended enough]
        simp only [ih attendedTo, Option.map_some, same]

theorem serve_of_le {fuel more : Nat} {requests : List Request} {replies : List (Outcome × World)}
    (done : machine.serve fuel world requests = some replies) (enough : fuel ≤ more) :
    machine.serve more world requests = some replies := by
  induction requests generalizing world replies with
  | nil => exact done
  | cons request rest ih =>
      rw [serve] at done ⊢
      rcases responded : machine.respond fuel world request with _ | ⟨outcome, later⟩
      · rw [responded] at done
        cases done
      · rw [responded] at done
        obtain ⟨others, served, same⟩ := Option.map_eq_some_iff.mp done
        rw [respond_of_le responded enough]
        simp only [ih served, Option.map_some, same]

theorem attendAll_iff_serve (requests : List Request) (answers : List (Outcome × Engine)) :
    (∃ fuel, machine.attendAll fuel (.new world) requests = some answers) ↔
      ∃ fuel replies, machine.serve fuel world requests = some replies ∧
        answers = replies.map fun (outcome, later) => (outcome, .new later) := by
  induction requests generalizing world answers with
  | nil =>
      constructor
      · rintro ⟨fuel, done⟩
        cases done
        exact ⟨0, [], rfl, rfl⟩
      · rintro ⟨fuel, replies, served, rfl⟩
        cases served
        exact ⟨0, rfl⟩
  | cons request rest ih =>
      simp only [attendAll, serve]
      constructor
      · rintro ⟨fuel, done⟩
        rcases attended : machine.attend fuel (.new world) request with _ | ⟨outcome, after⟩
        · rw [attended] at done
          cases done
        · rw [attended] at done
          obtain ⟨others, attendedTo, rfl⟩ := Option.map_eq_some_iff.mp done
          obtain ⟨idle, first, responded⟩ := (attend_new_iff request).mp ⟨fuel, attended⟩
          rw [Engine.eq_new idle] at attendedTo ⊢
          obtain ⟨second, replies, served, rfl⟩ := (ih others).mp ⟨fuel, attendedTo⟩
          refine ⟨max first second, (outcome, after.world) :: replies, ?_, rfl⟩
          rw [respond_of_le responded (Nat.le_max_left first second)]
          simp only [serve_of_le served (Nat.le_max_right first second), Option.map_some]
      · rintro ⟨fuel, replies, done, rfl⟩
        rcases responded : machine.respond fuel world request with _ | ⟨outcome, later⟩
        · rw [responded] at done
          cases done
        · rw [responded] at done
          obtain ⟨others, served, rfl⟩ := Option.map_eq_some_iff.mp done
          have answered : (Engine.new later).depth = 0 ∧ ∃ fuel,
              machine.respond fuel world request = some (outcome, (Engine.new later).world) :=
            ⟨rfl, fuel, responded⟩
          obtain ⟨first, attended⟩ := (attend_new_iff request).mpr answered
          obtain ⟨second, attendedTo⟩ := (ih _).mpr ⟨fuel, others, served, rfl⟩
          refine ⟨max first second, ?_⟩
          rw [attend_of_le attended (Nat.le_max_left first second)]
          simp only [attendAll_of_le attendedTo (Nat.le_max_right first second), Option.map_some,
            List.map_cons]

/-- Nothing but the world is left of a request, whatever its outcome. However many calls a machine counts
as active, it counts as many after a request; so a machine that is used again and again answers each
request as a new machine in the same world does, and as the machine with a list of frames does. -/
theorem requests_leave_no_trace (machine : Machine) (world : World) (requests : List Request) :
    (∀ fuel engine request outcome after,
      machine.attend fuel engine request = some (outcome, after) → after.depth = engine.depth) ∧
    (∀ fuel, machine.attendAll fuel (.new world) requests =
      machine.attendAfresh fuel world requests) ∧
    ∀ answers, (∃ fuel, machine.attendAll fuel (.new world) requests = some answers) ↔
      ∃ fuel replies, machine.serve fuel world requests = some replies ∧
        answers = replies.map fun (outcome, later) => (outcome, .new later) :=
  ⟨fun _ _ _ _ _ => attend_depth, fun fuel => attendAll_eq_attendAfresh machine fuel world requests,
    attendAll_iff_serve requests⟩

end Requests

theorem requests_leave_no_trace_spinning :
    let machine : Machine := { soleMachine spinConstants spinning with frameLimit := 2 }
    let world : World := .new (fun _ => 0) none
    let tooDeep : Outcome := .failed
      { active := ["Sole" ++ "." ++ "spin", "Sole" ++ "." ++ "spin"], cause := .tooManyFrames }
    let miscounted : Outcome := .fault (.wrongArgumentCount "Sole" "spin" 0 1)
    ∃ fuel, machine.attendAll fuel (.new world)
        [.call "Sole" "spin" [], .call "Sole" "spin" [.int 1], .call "Sole" "spin" []] =
      some [(tooDeep, .new world), (miscounted, .new world), (tooDeep, .new world)] := by
  intro machine world tooDeep miscounted
  obtain ⟨-, -, served⟩ := requests_leave_no_trace machine world
    [.call "Sole" "spin" [], .call "Sole" "spin" [.int 1], .call "Sole" "spin" []]
  refine (served _).mpr ⟨9, [(tooDeep, world), (miscounted, world), (tooDeep, world)], ?_, rfl⟩
  rfl

end Assay.Machine
