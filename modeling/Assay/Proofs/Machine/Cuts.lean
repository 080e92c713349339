import Assay.Proofs.Machine.Effects
import Assay.Proofs.Machine.Limits
import Assay.Proofs.Machine.Safety

/-!
What a run has done when a limit cuts it short: nothing that the run under wider limits does not do as
well. What has been written and what the clock has shown stays so, while a run goes on.
-/

namespace Assay.Machine

open Bytecode

def World.readingsSince (world : World) (first : Nat) : List Int64 :=
  (List.range' first (world.readings - first)).map world.clock

/-- What has been done in the first world is done in the second one as well; their limits may differ. -/
def World.Trails (tight loose : World) : Prop :=
  { tight with outputLimit := loose.outputLimit }.Precedes loose

namespace World

variable {tight loose later : World}

theorem Loosens.trails (loosens : tight.Loosens loose) : tight.Trails loose :=
  ⟨⟨"", by rw [String.append_empty, loosens.output]⟩, rfl, loosens.clock,
    Nat.le_of_eq loosens.readings.symm⟩

theorem Trails.trans (trails : tight.Trails loose) (precedes : loose.Precedes later) :
    tight.Trails later := by
  have through := Precedes.trans trails precedes
  rw [← precedes.outputLimit] at through
  exact through

theorem Trails.output_prefix (trails : tight.Trails loose) :
    tight.output.toList <+: loose.output.toList := by
  obtain ⟨text, written⟩ := trails.output
  exact ⟨text.toList, by rw [written, String.toList_append]⟩

theorem Trails.readings_prefix (trails : tight.Trails loose) (first : Nat) :
    tight.readingsSince first <+: loose.readingsSince first := by
  have more : tight.readings ≤ loose.readings := trails.readings
  obtain ⟨extra, isExtra⟩ := Nat.exists_eq_add_of_le (Nat.sub_le_sub_right more first)
  have sameClock : loose.clock = tight.clock := trails.clock
  unfold readingsSince
  rw [isExtra, sameClock, ← List.range'_append_1, List.map_append]
  exact List.prefix_append _ _

end World

def State.world : State → World
  | .running _ _ world => world
  | .stopped _ world => world

section Runs

variable {machine : Machine} {limit : Nat}

theorem enterCall_world (callers : List Frame) (world : World) (image : ClassImage)
    (routine : Routine) (args : List Value) :
    (machine.enterCall callers world image routine args).world = world := by
  unfold enterCall
  split
  · rfl
  · split
    · rfl
    · split
      · rfl
      · rfl

theorem absorb_world (frame : Frame) (callers : List Frame) (world after : World)
    (effect : Effect) : (machine.absorb frame callers world (.ok (after, effect))).world = after := by
  cases effect with
  | proceed next => rfl
  | call caller image routine args => exact enterCall_world _ _ _ _ _
  | finish value =>
      cases callers with
      | nil => rfl
      | cons caller callers => rfl
  | crash => rfl

theorem step_precedes (state : State) : state.world.Precedes (machine.step state).world := by
  cases state with
  | stopped outcome world => exact .refl world
  | running frame callers world =>
      rw [step_running]
      have behaves := advance_behaves machine.program frame world
      generalize frame.advance machine.program world = result at behaves ⊢
      cases behaves with
      | fault cause => exact .refl world
      | proceed precedes _ => rw [absorb_world]; exact precedes
      | call args _ _ => rw [absorb_world]; exact .refl world
      | finish value => rw [absorb_world]; exact .refl world
      | crash _ => rw [absorb_world]; exact .refl world

theorem run_precedes (fuel : Nat) (state : State) :
    state.world.Precedes (machine.run fuel state).world := by
  induction fuel generalizing state with
  | zero => exact .refl _
  | succ fuel ih =>
      rw [run_succ]
      exact (step_precedes state).trans (ih _)

variable {tight loose : State}

theorem State.Loosens.trails (loosens : tight.Loosens loose) : tight.world.Trails loose.world := by
  cases loosens with
  | running _ _ same => exact same.trails
  | stopped _ same => exact same.trails

/-- Also the step that is cut has done no more than the step under wider limits. -/
theorem step_trails (loosens : tight.Loosens loose) :
    (machine.step tight).world.Trails ((machine.withFrameLimit limit).step loose).world := by
  cases loosens with
  | stopped outcome same => exact same.trails
  | @running frame callers before after same =>
      have onward : after.Precedes
          ((machine.withFrameLimit limit).step (.running frame callers after)).world :=
        step_precedes (.running frame callers after)
      have agrees : Agrees (frame.advance machine.program before)
          (frame.advance machine.program after) := advance_agrees same
      rw [step_running] at onward ⊢
      rw [step_running]
      change World.Trails _ ((machine.withFrameLimit limit).absorb frame callers after
        (frame.advance machine.program after)).world
      change World.Precedes _ ((machine.withFrameLimit limit).absorb frame callers after
        (frame.advance machine.program after)).world at onward
      generalize frame.advance machine.program before = first,
        frame.advance machine.program after = second at agrees onward ⊢
      cases agrees with
      | cut other => exact same.trails.trans onward
      | fault cause => exact same.trails
      | done effect later =>
          rw [absorb_world, absorb_world]
          exact later.trails

theorem run_trails (wider : machine.frameLimit ≤ limit) (loosens : tight.Loosens loose) (fuel : Nat) :
    (machine.run fuel tight).world.Trails ((machine.withFrameLimit limit).run fuel loose).world := by
  induction fuel generalizing tight loose with
  | zero => exact loosens.trails
  | succ fuel ih =>
      rw [run_succ, run_succ]
      rcases step_loosens wider loosens with cut | later
      · rw [run_of_isCut cut]
        exact (step_trails loosens).trans (run_precedes fuel _)
      · exact ih later

theorem call_world (world : World) (owner name : String) (args : List Value) :
    (machine.call world owner name args).world = world := by
  unfold call
  split
  · rfl
  · exact enterCall_world _ _ _ _ _

theorem start_world (world : World) (request : Request) :
    (machine.start world request).world = world := by
  cases request with
  | run args => exact call_world _ _ _ _
  | call owner name args => exact call_world _ _ _ _

/-- A request under wider limits: the same run, or one that has been cut, and never less is done. -/
theorem request_loosens (wider : machine.frameLimit ≤ limit) {tight loose : World}
    (loosens : tight.Loosens loose) (request : Request) (fuel : Nat) :
    let wide := machine.withFrameLimit limit
    ((machine.run fuel (machine.start tight request)).IsCut ∨
      (machine.run fuel (machine.start tight request)).Loosens
        (wide.run fuel (wide.start loose request))) ∧
    (machine.run fuel (machine.start tight request)).world.Trails
      (wide.run fuel (wide.start loose request)).world := by
  intro wide
  rcases start_loosens wider loosens request with cut | later
  · rw [run_of_isCut cut]
    refine ⟨.inl cut, World.Trails.trans ?_ (run_precedes fuel _)⟩
    rw [start_world, start_world]
    exact loosens.trails
  · exact ⟨run_loosens wider later fuel, run_trails wider later fuel⟩

def World.limited (world : World) (bytes : Nat) : World := { world with outputLimit := some bytes }

theorem World.limited_loosens (world : World) {less more : Nat} (looser : less ≤ more) :
    (world.limited less).Loosens (world.limited more) := by
  refine ⟨rfl, rfl, rfl, rfl, fun larger isLarger => ⟨less, rfl, ?_⟩⟩
  cases isLarger
  exact looser

theorem World.Loosens.eq_limited {tight loose : World} {bytes : Nat} (loosens : tight.Loosens loose)
    (limited : loose.outputLimit = some bytes) : loose = tight.limited bytes := by
  obtain ⟨heap, output, outputLimit, clock, readings⟩ := loose
  simp only [World.limited, ← loosens.heap, ← loosens.output, ← loosens.clock, ← loosens.readings,
    ← limited]

/-- The output of the first world, and the clock readings since the clock had been read `first` times,
are prefixes of those of the second one. -/
structure World.PrefixOf (first : Nat) (earlier later : World) : Prop where
  output : earlier.output.toList <+: later.output.toList
  readings : earlier.readingsSince first <+: later.readingsSince first

theorem World.Trails.prefixOf {tight loose : World} (trails : tight.Trails loose) (first : Nat) :
    World.PrefixOf first tight loose :=
  ⟨trails.output_prefix, trails.readings_prefix first⟩

def Outcome.IsCut : Outcome → Prop
  | .failed failure => failure.cause = .tooManyFrames ∨ failure.cause = .outputLimit
  | _ => False

theorem isCut_answer {outcome : Outcome} {world : World} (request : Request)
    (cut : (State.stopped outcome world).IsCut) : (request.answer outcome).IsCut := by
  cases outcome with
  | failed failure => cases request <;> exact cut
  | returned value => exact cut.elim
  | crashed => exact cut.elim

/-- A run under some limits ends as it does under wider ones, or a limit cuts it. What it has written and
read from the clock until then, the run under the wider limits writes and reads as well, before
anything else, whether that run ends or not. -/
theorem limits_only_cut {less more : Nat} (wider : machine.frameLimit ≤ limit) (looser : less ≤ more)
    {world : World} {request : Request} {fuel : Nat} {outcome : Outcome} {after : World}
    (ended : machine.respond fuel (world.limited less) request = some (outcome, after)) :
    let wide := machine.withFrameLimit limit
    wide.respond fuel (world.limited more) request = some (outcome, after.limited more) ∨
      outcome.IsCut ∧
        (∀ steps ≥ fuel, World.PrefixOf world.readings after
          (wide.run steps (wide.start (world.limited more) request)).world) ∧
        ∀ steps other final, wide.respond steps (world.limited more) request = some (other, final) →
          World.PrefixOf world.readings after final := by
  intro wide
  obtain ⟨⟨inner, last⟩, settled, same⟩ := Option.map_eq_some_iff.mp ended
  cases same
  rw [settle_eq_some_iff] at settled
  obtain ⟨same, -⟩ := request_loosens wider (world.limited_loosens looser) request fuel
  rw [settled] at same
  rcases same with cut | same
  · refine .inr ⟨isCut_answer request cut, ?_⟩
    have covered : ∀ steps ≥ fuel, World.PrefixOf world.readings after
        (wide.run steps (wide.start (world.limited more) request)).world := by
      intro steps later
      obtain ⟨-, trails⟩ := request_loosens wider (world.limited_loosens looser) request steps
      rw [run_stopped_of_le settled later] at trails
      exact trails.prefixOf world.readings
    refine ⟨covered, fun steps other final responded => ?_⟩
    obtain ⟨⟨outcome, finalWorld⟩, wideSettled, same⟩ := Option.map_eq_some_iff.mp responded
    cases same
    rw [settle_eq_some_iff] at wideSettled
    have finished := run_stopped_of_le wideSettled (Nat.le_max_left steps fuel)
    have atEnd := covered _ (Nat.le_max_right steps fuel)
    rw [finished] at atEnd
    exact atEnd
  · refine .inl ?_
    have onward : (wide.start (world.limited more) request).world.Precedes
        (wide.run fuel (wide.start (world.limited more) request)).world := run_precedes fuel _
    have limited := onward.outputLimit
    rw [start_world] at limited
    generalize finished : wide.run fuel (wide.start (world.limited more) request) = finish
      at same limited
    cases same with
    | @stopped _ _ loose loosens =>
        rw [loosens.eq_limited limited] at finished
        rw [respond, (settle_eq_some_iff _ _ _ _).mpr finished]
        rfl

end Runs

def telling : Routine :=
  { name := "tell", isStatic := true, params := 0, locals := 0, returns := .void
    code := #[15, 2, 1, 0, 0, 16, 18, 0, 1, 27] }

def tellConstants : Array Constant :=
  #[.ofString "on", .ofMethod { owner := "Sole", name := "tell", args := 0, returns := .void }]

/-- With one frame the run is cut after the first text; with two frames it goes on. -/
theorem limits_only_cut_telling :
    let narrow : Machine := { soleMachine tellConstants telling with frameLimit := 1 }
    let wide := narrow.withFrameLimit 2
    let world : World := .new (fun _ => 7) none
    let request : Request := .call "Sole" "tell" []
    narrow.frameLimit ≤ 2 ∧ 5 ≤ 9 ∧ ∃ outcome after,
      narrow.respond 5 (world.limited 5) request = some (outcome, after) ∧ outcome.IsCut ∧
      after.output = "on" ∧ after.readings = 1 ∧
      ∀ steps ≥ 5, World.PrefixOf 0 after
        (wide.run steps (wide.start (world.limited 9) request)).world := by
  intro narrow wide world request
  have ends : (narrow.respond 5 (world.limited 5) request).isSome = true := by decide +kernel
  have goesOn : (wide.respond 5 (world.limited 9) request).isNone = true := by decide +kernel
  have wrote : (narrow.respond 5 (world.limited 5) request).map (fun answer => answer.2.output) =
      some "on" := by decide +kernel
  have read : (narrow.respond 5 (world.limited 5) request).map (fun answer => answer.2.readings) =
      some 1 := by decide +kernel
  obtain ⟨⟨outcome, after⟩, ended⟩ := Option.isSome_iff_exists.mp ends
  rw [ended, Option.map_some, Option.some.injEq] at wrote read
  have wider : narrow.frameLimit ≤ 2 := by decide
  have looser : 5 ≤ 9 := by decide
  refine ⟨wider, looser, outcome, after, ended, ?_⟩
  rcases limits_only_cut wider looser ended with same | ⟨cut, covered, -⟩
  · rw [same] at goesOn
    cases goesOn
  · exact ⟨cut, wrote, read, covered⟩

end Assay.Machine
