import Assay.Proofs.Assembly.Completion
import Assay.Proofs.Assembly.Restriction

/-!
Tests do not influence each other. What a test prints and the status that it hands to the main routine
depend on the class and its fixtures, and neither on the other tests of the selection nor on the clock.
-/

namespace Assay.Assembly

open Bytecode Assay.Graph Machine Syntax Typing

structure TestCall where
  begins : Nat
  length : Nat
  called : Frame
  caller : Frame
  before : World
  after : World

/-- The routine of a test is called once the name of the test is printed; it hands its status to the main
routine and prints a text, and then the time is printed. -/
structure TestCall.Contributes (call : TestCall) (machine : Machine) (start : State)
    (finish : World) (testClass name : String) (status : Int64) (text : String) : Prop where
  owner : call.called.image.name = testClass
  routine : call.called.routine.name = name
  fresh : call.called.offset = 0
  enters : machine.run call.begins start = .running call.called [call.caller] call.before
  works : ∀ step < call.length, Alive 1 (machine.run (call.begins + step) start)
  returns : machine.run (call.begins + call.length) start =
    .running (call.caller.push (.int status)) [] call.after
  labelled : ∃ earlier, call.before.output = earlier ++ ("\t- " ++ name ++ ": ")
  printed : call.after.output = call.before.output ++ text
  timed : ∃ first second later,
    finish.output = call.after.output ++ elapsedText first second ++ later

def Contributes (machine : Machine) (start : State) (finish : World) (testClass name : String)
    (status : Int64) (text : String) : Prop :=
  ∃ call : TestCall, call.Contributes machine start finish testClass name status text

def choose (owner : ClassType) : Option (List String) → Except SelectionError Selection
  | none => .ok .everything
  | some names => restrict owner names

/-- A run of the tests of a class that has come to its end. -/
structure FinishedRun (declaration : ClassDeclaration) where
  names : Option (List String)
  selection : Selection
  chosen : choose (check declaration).type names = .ok selection
  runId : String
  log : List Logging.Event
  program : Program
  compiled : compile runId (check declaration) selection = (log, .ok program)
  limit : Int
  args : List String
  world : World
  fuel : Nat
  finish : World
  answered : (Machine.new program limit).respond fuel world (.run args) =
    some (.returned .nil, finish)

def FinishedRun.machine {declaration : ClassDeclaration} (run : FinishedRun declaration) : Machine :=
  .new run.program run.limit

def FinishedRun.start {declaration : ClassDeclaration} (run : FinishedRun declaration) : State :=
  run.machine.start run.world (.run run.args)

/-- The tests of a finished run have ended in that way. -/
structure FinishedRun.Shows {declaration : ClassDeclaration} (run : FinishedRun declaration)
    (outcomes : Outcomes) : Prop where
  concluded : Concluded declaration run.selection outcomes
  output : run.finish.output =
    run.world.output ++ report declaration.name run.world.clock run.world.readings outcomes
  contributes : ∀ outcome ∈ outcomes, Contributes run.machine run.start run.finish
    (testClassName declaration.name) outcome.1.name outcome.2.status (verdict outcome.2)

section Runs

variable {machine : Machine} {declaration : ClassDeclaration} {selection : Selection}
  {target image : ClassImage} {main : Routine} {good : World → Prop} {world : World}

theorem testLines_append (clock : Nat → Int64) (first : Nat) (front back : Outcomes) :
    testLines clock first (front ++ back) =
      testLines clock first front ++ testLines clock (first + 2 * front.length) back := by
  induction front generalizing first with
  | nil => simp [testLines]
  | cons outcome rest ih =>
      obtain ⟨test, ending⟩ := outcome
      have next : first + 2 + 2 * rest.length = first + 2 * (rest.length + 1) := by omega
      rw [List.cons_append, testLines_cons, testLines_cons, ih, String.append_assoc,
        List.length_cons, next]

/-- The machine comes to the call of each test, after the lines of the tests before it. -/
theorem test_reached (loaded : Loaded machine declaration selection target image main)
    (stable : Stable declaration target good) (accepting : Accepting good) (fine : good world)
    {front back : Outcomes} {test : MemberDeclaration} {ending : Ending}
    (concluded : Concluded declaration selection (front ++ (test, ending) :: back))
    (args : List String) :
    ∃ steps before address prepared final rest locals,
      world.Proceeds (banner declaration.name ++ testLines world.clock world.readings front ++
        testName test) (1 + 2 * front.length + 1) before ∧
      Instanced declaration good before address prepared ∧
      Runs test.body prepared ending final ∧
      Spot.Shows image main
        ⟨callOrder image.name (signatureOf declaration .test test) :: rest, locals,
          [.object address], before⟩
        (machine.run steps (machine.start world (.run args))) := by
  have members : ∀ outcome ∈ front ++ (test, ending) :: back,
      outcome.1 ∈ included declaration selection .test := by
    intro outcome isOutcome
    rw [← concluded.listed]
    exact List.mem_map_of_mem isOutcome
  have tested : Tested declaration selection test ending :=
    concluded.tested (test, ending) (List.mem_append_right _ List.mem_cons_self)
  have toTests := world.proceeds_after (banner declaration.name) 1
  have begun := stable.steady _ (banner declaration.name) 1 fine
  obtain ⟨middle, last, toMiddle, middleFine, frontPasses⟩ := tests_pass loaded stable begun
    (fun outcome isOutcome => members outcome (List.mem_append_left _ isOutcome))
    (fun outcome isOutcome => concluded.tested outcome (List.mem_append_left _ isOutcome)) rfl rfl
    (accepting _ _ begun) args 0 (.int (world.clock world.readings)) .nil
  obtain ⟨before, prepared, final, toBefore, instanced, runs, prepares⟩ :=
    test_prepares loaded stable middleFine tested (accepting _ _ middleFine) args
      (.int (.ofInt (failures front + 0))) (.int (world.clock world.readings)) last
  have starts := loaded.starts world args
  obtain ⟨later, split⟩ : ∃ later, (signatures declaration selection .test).flatMap
      (testOrders declaration.name image.name (signatures declaration selection .fixture)) ++
        summaryOrders (signatures declaration selection .test).length =
      testsOrders declaration selection image.name (front.map Prod.fst) ++
        (testOrders declaration.name image.name (signatures declaration selection .fixture)
          (signatureOf declaration .test test) ++ later) := by
    refine ⟨testsOrders declaration selection image.name (back.map Prod.fst) ++
      summaryOrders (signatures declaration selection .test).length, ?_⟩
    change testsOrders declaration selection image.name (included declaration selection .test) ++ _ = _
    rw [← concluded.listed, List.map_append, List.map_cons]
    simp only [testsOrders, List.map_append, List.map_cons, List.flatMap_append, List.flatMap_cons,
      List.append_assoc]
  rw [mainOrders_eq, split] at starts
  have passes := (main_begins stable fine (accepting _ _ fine) args _ []).trans
    ((frontPasses _ []).trans (prepares later []))
  obtain ⟨state, ⟨steps, ran, -⟩, shows⟩ := passes _ starts
  rw [← ran] at shows
  exact ⟨steps, before, _, prepared, final, _, _, (toTests.trans toMiddle).trans toBefore, instanced,
    runs, shows⟩

theorem test_contributes (loaded : Loaded machine declaration selection target image main)
    (stable : Stable declaration target good) (accepting : Accepting good) (fine : good world)
    {front back : Outcomes} {test : MemberDeclaration} {ending : Ending}
    (concluded : Concluded declaration selection (front ++ (test, ending) :: back))
    {finish : World} (output : finish.output = world.output ++
      report declaration.name world.clock world.readings (front ++ (test, ending) :: back))
    (args : List String) :
    Contributes machine (machine.start world (.run args)) finish (testClassName declaration.name)
      test.name ending.status (verdict ending) := by
  have isIncluded : test ∈ included declaration selection .test := by
    rw [← concluded.listed]
    exact List.mem_map_of_mem (List.mem_append_right front List.mem_cons_self)
  obtain ⟨steps, before, address, prepared, final, rest, locals, toCall, instanced, runs, shows⟩ :=
    test_reached loaded stable accepting fine concluded args
  have typed := loaded.runs_typed isIncluded instanced.typed runs
  have shown := stable.showing _ address final instanced.fine typed
  have announced : (before.showing address final).announce (ending.printed? .test) =
      some ((before.showing address final).after (verdict ending) 0) := by
    rw [printed?_test]
    exact World.write?_of_accepts (accepting _ _ shown)
  obtain ⟨routine, offset, bytes, isRoutine, entered, ⟨length, ran, working⟩, -, -⟩ :=
    call_returns loaded stable isIncluded instanced runs announced shows
  have onward : ∀ more, machine.run (steps + 1 + more) (machine.start world (.run args)) =
      machine.run more (.running (Frame.enter image routine [.object address])
        [mainFrame image main locals [] offset (decide (Role.test = .test))] before) := by
    intro more
    rw [Nat.add_assoc, run_add, Nat.add_comm 1, run_succ, entered]
  refine ⟨⟨steps + 1, length, Frame.enter image routine [.object address],
    mainFrame image main locals [] offset true, before,
    (before.showing address final).after (verdict ending) 0⟩, ?_⟩
  refine ⟨loaded.compiled.imageName, name_of_routine? isRoutine, rfl, onward 0, ?_, ?_, ?_, rfl, ?_⟩
  · intro more earlier
    rw [onward]
    exact (working more earlier).2
  · rw [onward, ran]
    rfl
  · refine ⟨world.output ++ (banner declaration.name ++
      testLines world.clock world.readings front), ?_⟩
    rw [toCall.output, testName]
    simp only [String.append_assoc]
  · refine ⟨world.clock (world.readings + 2 * front.length + 1),
      world.clock (world.readings + 2 * front.length + 2),
      testLines world.clock (world.readings + 2 * front.length + 2) back ++
        summary world.clock world.readings (front ++ (test, ending) :: back), ?_⟩
    have written : ((before.showing address final).after (verdict ending) 0).output =
        before.output ++ verdict ending := rfl
    rw [output, report, testLines_append, testLines_cons, testLine, written, toCall.output]
    simp only [String.append_assoc]

end Runs

theorem Alive.of_loosens {depth : Nat} {tight loose : State} (alive : Alive depth loose)
    (loosens : tight.Loosens loose) : Alive depth tight := by
  cases loosens with
  | running frame callers same => exact alive
  | stopped outcome same => exact alive

section Limited

variable {machine : Machine} {limit fuel : Nat} {start wideStart : State} {value : Value}
  {finish wideFinish : World}

theorem Contributes.limited (wider : machine.frameLimit ≤ limit) (loosens : start.Loosens wideStart)
    (returned : machine.run fuel start = .stopped (.returned value) finish)
    (wideReturned : (machine.withFrameLimit limit).run fuel wideStart =
      .stopped (.returned value) wideFinish) (sameOutput : wideFinish.output = finish.output)
    {testClass name text : String} {status : Int64}
    (contributes : Contributes (machine.withFrameLimit limit) wideStart wideFinish testClass name
      status text) :
    Contributes machine start finish testClass name status text := by
  obtain ⟨call, contributes⟩ := contributes
  have early : call.begins + call.length ≤ fuel := by
    by_contra late
    have stopped := run_stopped_of_le wideReturned (Nat.le_of_not_le late)
    rw [contributes.returns] at stopped
    cases stopped
  have same : ∀ steps ≤ fuel, (machine.run steps start).Loosens
      ((machine.withFrameLimit limit).run steps wideStart) :=
    fun steps bound => run_loosens_before wider loosens returned bound
  have entered := same call.begins (Nat.le_trans (Nat.le_add_right _ _) early)
  rw [contributes.enters] at entered
  obtain ⟨before, enters, sameBefore⟩ := entered.running_left
  have left := same (call.begins + call.length) early
  rw [contributes.returns] at left
  obtain ⟨after, returns, sameAfter⟩ := left.running_left
  refine ⟨{ call with before, after }, contributes.owner, contributes.routine, contributes.fresh,
    enters, ?_, returns, ?_, ?_, ?_⟩
  · intro step less
    have bound : call.begins + step ≤ fuel :=
      Nat.le_trans (Nat.add_le_add_left (Nat.le_of_lt less) _) early
    exact (contributes.works step less).of_loosens (same _ bound)
  · rw [← sameBefore.output]
    exact contributes.labelled
  · rw [← sameBefore.output, ← sameAfter.output]
    exact contributes.printed
  · rw [← sameAfter.output, ← sameOutput]
    exact contributes.timed

end Limited

variable {declaration : ClassDeclaration}

def Unlimited (world : World) : Prop := world.outputLimit = none

theorem unlimited_stable (declaration : ClassDeclaration) (target : ClassImage) :
    Stable declaration target Unlimited :=
  ⟨fun _ _ _ unlimited => unlimited, fun _ unlimited => unlimited, fun _ _ _ unlimited _ => unlimited⟩

theorem unlimited_accepting : Accepting Unlimited := by
  intro world text unlimited
  simp only [World.accepts, show world.outputLimit = none from unlimited]

def FinishedRun.room (run : FinishedRun declaration) : Nat := max run.machine.frameLimit 2

theorem FinishedRun.loaded (fine : (check declaration).diagnostics = [])
    (run : FinishedRun declaration) : ∃ target image main,
      Loaded (run.machine.withFrameLimit run.room) declaration run.selection target image main := by
  obtain ⟨target, image, main, compiled⟩ := compile_ok fine run.compiled
  exact ⟨target, image, main, accepted_of_no_errors fine, compiled, Nat.le_max_right _ _⟩

/-- Whoever sees a finished run knows what every included test has contributed. -/
theorem FinishedRun.shows (fine : (check declaration).diagnostics = [])
    (run : FinishedRun declaration) : ∃ outcomes, run.Shows outcomes := by
  obtain ⟨value, returned⟩ : ∃ value, run.machine.run run.fuel run.start =
      .stopped (.returned value) run.finish := (respond_run_iff run.fuel).mp run.answered
  -- Without limits the same run goes the same way, and there its outcome is known.
  have wider : run.machine.frameLimit ≤ run.room := Nat.le_max_left _ _
  obtain ⟨target, image, main, loaded⟩ := run.loaded fine
  have notCut : ¬run.start.IsCut := by
    intro cut
    rw [run_of_isCut cut] at returned
    rw [returned] at cut
    exact cut
  have loosens :=
    (start_loosens wider run.world.loosens_unlimited (.run run.args)).resolve_left notCut
  obtain ⟨wideFinish, wideReturned, sameFinish⟩ := run_returned_loosens wider loosens returned
  have unlimited : Unlimited { run.world with outputLimit := none } := rfl
  rcases run_outcome loaded (unlimited_stable _ _) unlimited_accepting unlimited run.args with
    ⟨outcomes, after, concluded, -, proceeds, steps, ran, -⟩ | endless
  · obtain ⟨-, rfl⟩ := run_stopped_unique wideReturned ran
    have output : run.finish.output = run.world.output ++
        report declaration.name run.world.clock run.world.readings outcomes := by
      rw [← sameFinish.output]
      exact proceeds.output
    refine ⟨outcomes, concluded, output, fun outcome isOutcome => ?_⟩
    obtain ⟨front, back, rfl⟩ := List.append_of_mem isOutcome
    exact Contributes.limited wider loosens returned wideReturned sameFinish.output
      (test_contributes loaded (unlimited_stable _ _) unlimited_accepting unlimited concluded
        proceeds.output run.args)
  · have alive := (endless run.fuel).2
    rw [wideReturned] at alive
    exact absurd alive id

theorem answered_of_concluded {runId : String} {selection : Selection} {log : List Logging.Event}
    {program : Program} (fine : (check declaration).diagnostics = [])
    (done : compile runId (check declaration) selection = (log, .ok program)) {limit : Int}
    (room : 2 ≤ (Machine.new program limit).frameLimit) {outcomes : Outcomes}
    (concluded : Concluded declaration selection outcomes) (clock : Nat → Int64)
    (args : List String) :
    ∃ fuel finish, (Machine.new program limit).respond fuel (World.new clock none) (.run args) =
      some (.returned .nil, finish) := by
  obtain ⟨target, image, main, loaded⟩ := loaded_of_compile fine done room
  have unlimited : Unlimited (World.new clock none) := rfl
  obtain ⟨finish, -, -, fuel, ran, -⟩ :=
    report_returns loaded (unlimited_stable _ _) unlimited_accepting unlimited concluded args
  exact ⟨fuel, finish, (respond_run_iff fuel).mpr ⟨.nil, ran⟩⟩

theorem exists_finished (fine : (check declaration).diagnostics = [])
    {names : Option (List String)} {selection : Selection}
    (chosen : choose (check declaration).type names = .ok selection)
    (fits : ¬Overflows declaration selection) {outcomes : Outcomes}
    (concluded : Concluded declaration selection outcomes) (clock : Nat → Int64) :
    ∃ run : FinishedRun declaration, run.names = names ∧ run.selection = selection ∧
      run.world = World.new clock none := by
  obtain ⟨log, program, compiled⟩ := compile_succeeds fine fits "run"
  have room : 2 ≤ (Machine.new program 2).frameLimit := Nat.le_refl 2
  obtain ⟨fuel, finish, answered⟩ := answered_of_concluded fine compiled room concluded clock []
  exact ⟨⟨names, selection, chosen, "run", log, program, compiled, 2, [], World.new clock none, fuel,
    finish, answered⟩, rfl, rfl, rfl⟩

theorem FinishedRun.fixtures (accepted : Accepted declaration) (run : FinishedRun declaration) :
    included declaration run.selection .fixture = declaration.fixtures := by
  have chosen := run.chosen
  cases isNames : run.names with
  | none =>
      rw [isNames] at chosen
      obtain isAll : Selection.everything = run.selection := Except.ok.inj chosen
      rw [← isAll]
      exact List.filter_eq_self.mpr fun _ _ => rfl
  | some names =>
      rw [isNames] at chosen
      exact restrict_fixtures accepted chosen

theorem Concluded.exists_ending {selection : Selection} {outcomes : Outcomes}
    (concluded : Concluded declaration selection outcomes) {test : MemberDeclaration}
    (isIncluded : test ∈ included declaration selection .test) :
    ∃ ending, (test, ending) ∈ outcomes := by
  rw [← concluded.listed] at isIncluded
  obtain ⟨⟨other, ending⟩, isOutcome, rfl⟩ := List.mem_map.mp isIncluded
  exact ⟨ending, isOutcome⟩

theorem same_ending (accepted : Accepted declaration) {first second : FinishedRun declaration}
    {outcomes others : Outcomes} (shows : first.Shows outcomes) (showsToo : second.Shows others)
    {test : MemberDeclaration} (isIncluded : test ∈ included declaration first.selection .test)
    (isIncludedToo : test ∈ included declaration second.selection .test) :
    ∃ ending, (test, ending) ∈ outcomes ∧ (test, ending) ∈ others := by
  obtain ⟨ending, isOutcome⟩ := shows.concluded.exists_ending isIncluded
  obtain ⟨other, isOther⟩ := showsToo.concluded.exists_ending isIncludedToo
  have fixtures : included declaration first.selection .fixture =
      included declaration second.selection .fixture := by
    rw [first.fixtures accepted, second.fixtures accepted]
  have tested := shows.concluded.tested _ isOutcome
  have same : ending = other := tested.unique (showsToo.concluded.tested _ isOther) fixtures
  exact ⟨ending, isOutcome, same ▸ isOther⟩

/-- Isolation. A test that is included in two finished runs of a class hands over the same status and
prints the same verdict in both, whatever else is included and whatever the clocks show. The order and
the repetition of names do not matter for the classes, which have the fixtures, the named tests and the
main routine. -/
theorem tests_isolated (fine : (check declaration).diagnostics = []) :
    (∀ first second : FinishedRun declaration, ∃ outcomes others,
      first.Shows outcomes ∧ second.Shows others ∧
      ∀ test ∈ included declaration first.selection .test,
        test ∈ included declaration second.selection .test →
        ∃ ending, (test, ending) ∈ outcomes ∧ (test, ending) ∈ others) ∧
    (∀ names selection, restrict (check declaration).type names = .ok selection →
      ∀ others, (∀ name, name ∈ names ↔ name ∈ others) →
      ∃ again, restrict (check declaration).type others = .ok again ∧ ∀ runId otherId,
        (compile runId (check declaration) selection).2.map Program.classes =
          (compile otherId (check declaration) again).2.map Program.classes) ∧
    ∀ names selection, restrict (check declaration).type names = .ok selection →
      ∀ runId log program, compile runId (check declaration) selection = (log, .ok program) →
      ∃ image, program.class? (testClassName declaration.name) = some image ∧
        image.routines.toList.map Routine.name =
          declaration.fixtures.map MemberDeclaration.name ++
            (declaration.tests.filter fun test => test.name ∈ names).map MemberDeclaration.name ++
            [mainName] := by
  have accepted := accepted_of_no_errors fine
  refine ⟨fun first second => ?_, fun names selection restricted others sameNames => ?_,
    fun names selection restricted runId log program done => ?_⟩
  · obtain ⟨outcomes, shows⟩ := first.shows fine
    obtain ⟨others, showsToo⟩ := second.shows fine
    exact ⟨outcomes, others, shows, showsToo, fun test => same_ending accepted shows showsToo⟩
  · obtain ⟨again, restrictedToo⟩ :=
      restrict_succeeds restricted fun name isOther => (sameNames name).mpr isOther
    exact ⟨again, restrictedToo, restrict_classes accepted restricted restrictedToo sameNames⟩
  · rw [← restrict_fixtures accepted restricted, ← restrict_tests accepted restricted]
    exact routine_names fine done

def darkenMember : MemberDeclaration :=
  { position := .unknown, name := "darken", body := .assign .unknown "on" (.boolean .unknown false) }

def darkenedClass : ClassDeclaration := { lampClass with tests := [darkenMember, litMember] }

def litSelection : Selection :=
  .only [signatureOf darkenedClass .fixture lightMember, signatureOf darkenedClass .test litMember,
    signatureOf darkenedClass .test litMember]

theorem darkened_tested (selection : Selection)
    (fixtures : included darkenedClass selection .fixture = [lightMember]) :
    Tested darkenedClass selection darkenMember .done ∧
      Tested darkenedClass selection litMember .done := by
  have light : Prepared (included darkenedClass selection .fixture) (zeroStore darkenedClass)
      ((zeroStore darkenedClass).set "on" (.boolean true)) :=
    fixtures ▸ .cons (.assign rfl) .nil
  exact ⟨⟨_, _, light, .assign rfl⟩, ⟨_, _, light, .assertTrue rfl⟩⟩

theorem tests_isolated_darkened : ∃ first second : FinishedRun darkenedClass,
    (check darkenedClass).diagnostics = [] ∧
    first.names = none ∧ second.names = some ["lit", "lit"] ∧
    first.world = World.new Int64.ofNat none ∧ second.world = World.new (fun _ => 0) none ∧
    ∃ outcomes others, first.Shows outcomes ∧ second.Shows others ∧
      outcomes.map Prod.fst = [darkenMember, litMember] ∧ others.map Prod.fst = [litMember] ∧
      ∃ ending, (litMember, ending) ∈ outcomes ∧ (litMember, ending) ∈ others := by
  have fine : (check darkenedClass).diagnostics = [] := rfl
  obtain ⟨darkenTested, litTested⟩ := darkened_tested .everything rfl
  obtain ⟨first, firstNames, firstSelection, firstWorld⟩ := exists_finished fine
    (show choose (check darkenedClass).type none = .ok .everything from rfl)
    (fits_of_small 100 (by decide +kernel) (by decide +kernel))
    (show Concluded darkenedClass .everything [(darkenMember, .done), (litMember, .done)] from
      ⟨rfl, List.forall_mem_cons.mpr ⟨darkenTested, List.forall_mem_singleton.mpr litTested⟩⟩)
    Int64.ofNat
  obtain ⟨second, secondNames, secondSelection, secondWorld⟩ := exists_finished fine
    (show choose (check darkenedClass).type (some ["lit", "lit"]) = .ok litSelection from rfl)
    (fits_of_small 100 (by decide +kernel) (by decide +kernel))
    (show Concluded darkenedClass litSelection [(litMember, .done)] from
      ⟨rfl, List.forall_mem_singleton.mpr (darkened_tested litSelection rfl).2⟩) fun _ => 0
  obtain ⟨outcomes, others, shows, showsToo, same⟩ := (tests_isolated fine).1 first second
  have listed := shows.concluded.listed
  have listedToo := showsToo.concluded.listed
  rw [firstSelection] at listed
  rw [secondSelection] at listedToo
  have ends := same litMember (firstSelection ▸ List.mem_cons_of_mem _ List.mem_cons_self)
    (secondSelection ▸ List.mem_cons_self)
  exact ⟨first, second, fine, firstNames, secondNames, firstWorld, secondWorld, outcomes, others,
    shows, showsToo, listed, listedToo, ends⟩

end Assay.Assembly
