import Assay.Proofs.Assembly.Reports
import Assay.Proofs.Machine.Limits

/-!
A program comes to its end only if all of its tests do. So whoever sees a run that has returned knows
how every included test has ended and what was printed, whatever the limits were.
-/

namespace Assay.Assembly

open Bytecode Assay.Graph Machine Syntax Typing

/-- The included tests in order, each with its ending. -/
structure Concluded (declaration : ClassDeclaration) (selection : Selection) (outcomes : Outcomes) :
    Prop where
  listed : outcomes.map Prod.fst = included declaration selection .test
  tested : ∀ outcome ∈ outcomes, Tested declaration selection outcome.1 outcome.2

theorem exists_outcomes {declaration : ClassDeclaration} {selection : Selection}
    {tests : List MemberDeclaration}
    (ends : ∀ test ∈ tests, ∃ ending, Tested declaration selection test ending) :
    ∃ outcomes : Outcomes, outcomes.map Prod.fst = tests ∧
      ∀ outcome ∈ outcomes, Tested declaration selection outcome.1 outcome.2 := by
  induction tests with
  | nil => exact ⟨[], rfl, by simp⟩
  | cons test others ih =>
      obtain ⟨⟨ending, tested⟩, othersEnd⟩ := List.forall_mem_cons.mp ends
      obtain ⟨outcomes, sameTests, allTested⟩ := ih othersEnd
      exact ⟨(test, ending) :: outcomes, by rw [List.map_cons, sameTests],
        List.forall_mem_cons.mpr ⟨tested, allTested⟩⟩

theorem Prepared.unique {fixtures : List MemberDeclaration} {store first second : Store}
    (one : Prepared fixtures store first) (other : Prepared fixtures store second) :
    first = second := by
  induction one with
  | nil => cases other; rfl
  | cons runs _ ih =>
      cases other with
      | cons again later =>
          obtain ⟨-, rfl⟩ := runs.unique again
          exact ih later

theorem Tested.unique {declaration : ClassDeclaration} {first second : Selection}
    {test : MemberDeclaration} {one other : Ending} (tested : Tested declaration first test one)
    (again : Tested declaration second test other)
    (sameFixtures : included declaration first .fixture = included declaration second .fixture) :
    one = other := by
  obtain ⟨prepared, final, isPrepared, runs⟩ := tested
  obtain ⟨otherPrepared, otherFinal, isOther, otherRuns⟩ := again
  rw [← sameFixtures] at isOther
  obtain rfl := isPrepared.unique isOther
  exact (runs.unique otherRuns).1

theorem Concluded.unique {declaration : ClassDeclaration} {selection : Selection}
    {outcomes others : Outcomes} (concluded : Concluded declaration selection outcomes)
    (again : Concluded declaration selection others) : outcomes = others := by
  have listed := concluded.listed.trans again.listed.symm
  have tested := concluded.tested
  have testedToo := again.tested
  clear concluded again
  induction outcomes generalizing others with
  | nil => exact (List.map_eq_nil_iff.mp listed.symm).symm
  | cons outcome rest ih =>
      cases others with
      | nil => cases listed
      | cons other restToo =>
          obtain ⟨sameTest, restListed⟩ := List.cons.inj listed
          obtain ⟨first, restTested⟩ := List.forall_mem_cons.mp tested
          obtain ⟨firstToo, restTestedToo⟩ := List.forall_mem_cons.mp testedToo
          rw [← sameTest] at firstToo
          rw [ih restListed restTested restTestedToo,
            Prod.ext sameTest (first.unique firstToo rfl)]

section Runs

variable {machine : Machine} {declaration : ClassDeclaration} {selection : Selection}
  {target image : ClassImage} {main : Routine} {good : World → Prop} {world : World}

def Accepting (good : World → Prop) : Prop :=
  ∀ world text, good world → world.accepts text = true

theorem alive_before {state : State} {steps : Nat} (more : Nat)
    (alive : Alive 0 (machine.run (steps + more) state)) : Alive 0 (machine.run steps state) := by
  cases ran : machine.run steps state with
  | running frame callers world => exact Nat.zero_le _
  | stopped outcome world =>
      rw [run_add, ran, run_stopped] at alive
      exact alive

def Endless (machine : Machine) (declaration : ClassDeclaration) (image : ClassImage)
    (main : Routine) (good : World → Prop) (spot : Spot) : Prop :=
  ∀ state, spot.Shows image main state → ∀ steps,
    Fine declaration image main good (machine.run steps state) ∧ Alive 0 (machine.run steps state)

theorem Endless.before {first second : Spot}
    (endless : Endless machine declaration image main good second)
    (passes : Passes machine declaration image main good first second) :
    Endless machine declaration image main good first := by
  intro state shows steps
  obtain ⟨next, ⟨taken, ran, before⟩, nextShows⟩ := passes state shows
  by_cases early : steps < taken
  · refine ⟨before steps early, ?_⟩
    obtain ⟨more, rfl⟩ := Nat.exists_eq_add_of_lt early
    apply alive_before (more + 1)
    rw [← Nat.add_assoc, ran]
    exact (endless next nextShows 0).2
  · obtain ⟨more, rfl⟩ := Nat.exists_eq_add_of_le (Nat.le_of_not_lt early)
    rw [run_add, ran]
    exact endless next nextShows more

theorem fixtures_endless (loaded : Loaded machine declaration selection target image main)
    (stable : Stable declaration target good) {fixtures : List MemberDeclaration} {store : Store}
    (listed : ∀ fixture ∈ fixtures, fixture ∈ included declaration selection .fixture)
    {address : Nat} (instanced : Instanced declaration good world address store)
    (endless : ∀ final, ¬Prepared fixtures store final) (rest : List Order)
    (locals : Array Value) (stack : List Value) :
    Endless machine declaration image main good
      ⟨fixtureOrders image.name (fixtures.map (signatureOf declaration .fixture)) ++ rest, locals,
        .object address :: stack, world⟩ := by
  induction fixtures generalizing world store with
  | nil => exact absurd .nil (endless store)
  | cons fixture others ih =>
      obtain ⟨isIncluded, othersListed⟩ := List.forall_mem_cons.mp listed
      refine Endless.before ?_ (dup_passes instanced.fine _)
      -- The first fixture that does not end is the place where the machine stays.
      by_cases ends : ∃ ending middle, Runs fixture.body store ending middle
      · obtain ⟨ending, middle, runs⟩ := ends
        have announced : (world.showing address middle).announce (ending.printed? .fixture) =
            some (world.showing address middle) := rfl
        have typed := loaded.runs_typed isIncluded instanced.typed runs
        refine Endless.before ?_ (call_passes loaded stable isIncluded instanced runs announced)
        exact ih othersListed (instanced.announced stable typed announced)
          fun final prepared => endless final (.cons runs prepared)
      · intro state shows steps
        exact call_lasts loaded stable isIncluded instanced
          (fun ending final runs => ends ⟨ending, final, runs⟩) shows steps

theorem test_endless (loaded : Loaded machine declaration selection target image main)
    (stable : Stable declaration target good) (accepting : Accepting good) (fine : good world)
    {test : MemberDeclaration} (isIncluded : test ∈ included declaration selection .test)
    (endless : ∀ ending, ¬Tested declaration selection test ending) (args : List String)
    (count total last : Value) (rest : List Order) (stack : List Value) :
    Endless machine declaration image main good
      ⟨testOrders declaration.name image.name (signatures declaration selection .fixture)
          (signatureOf declaration .test test) ++ rest,
        mainVariables args count total last, stack, world⟩ := by
  obtain ⟨first, -, newInstance, begins⟩ := test_begins loaded stable fine
    (accepting world (testName test) fine) args count total last
  rw [testOrders_append]
  refine Endless.before ?_ (begins _ stack)
  by_cases ends : ∃ prepared, Prepared (included declaration selection .fixture)
      (zeroStore declaration) prepared
  · obtain ⟨prepared, isPrepared⟩ := ends
    obtain ⟨heap, preparedInstance, fixturesPass⟩ :=
      fixtures_pass loaded stable (fun _ member => member) newInstance isPrepared
    refine Endless.before ?_ (fixturesPass _ _ stack)
    intro state shows steps
    exact call_lasts loaded stable isIncluded preparedInstance
      (fun ending final runs => endless ending ⟨prepared, final, isPrepared, runs⟩) shows steps
  · exact fixtures_endless loaded stable (fun _ member => member) newInstance
      (fun prepared isPrepared => ends ⟨prepared, isPrepared⟩) _ _ stack

theorem tests_endless (loaded : Loaded machine declaration selection target image main)
    (stable : Stable declaration target good) (accepting : Accepting good) (fine : good world)
    {tests : List MemberDeclaration}
    (listed : ∀ test ∈ tests, test ∈ included declaration selection .test)
    (endless : ∃ test ∈ tests, ∀ ending, ¬Tested declaration selection test ending)
    (args : List String) (count : Int) (total last : Value) (rest : List Order)
    (stack : List Value) :
    Endless machine declaration image main good
      ⟨testsOrders declaration selection image.name tests ++ rest,
        mainVariables args (.int (.ofInt count)) total last, stack, world⟩ := by
  induction tests generalizing world count last with
  | nil => simp at endless
  | cons test others ih =>
      obtain ⟨isIncluded, othersListed⟩ := List.forall_mem_cons.mp listed
      simp only [testsOrders, List.map_cons, List.flatMap_cons, List.append_assoc]
      by_cases ends : ∃ ending, Tested declaration selection test ending
      · obtain ⟨ending, tested⟩ := ends
        obtain ⟨after, -, afterFine, passes⟩ := test_passes loaded stable fine isIncluded tested
          (accepting _ _ fine) args count total last
        refine Endless.before (ih afterFine othersListed ?_ _ _) (passes _ stack)
        obtain ⟨other, isOther, otherEndless⟩ := endless
        rcases List.mem_cons.mp isOther with rfl | later
        · exact absurd tested (otherEndless ending)
        · exact ⟨other, later, otherEndless⟩
      · exact test_endless loaded stable accepting fine isIncluded
          (fun ending tested => ends ⟨ending, tested⟩) args _ total last _ stack

theorem report_returns (loaded : Loaded machine declaration selection target image main)
    (stable : Stable declaration target good) (accepting : Accepting good) (fine : good world)
    {outcomes : Outcomes} (concluded : Concluded declaration selection outcomes)
    (args : List String) :
    ∃ after, good after ∧
      world.Proceeds (report declaration.name world.clock world.readings outcomes)
        (2 * outcomes.length + 2) after ∧
      LeadsBy machine.run (Fine declaration image main good) (machine.start world (.run args))
        (.stopped (.returned .nil) after) := by
  obtain ⟨after, locals, afterFine, proceeds, passes⟩ :=
    main_passes loaded stable fine concluded.listed concluded.tested (accepting _ _ fine) args
  obtain ⟨last, leads, shows⟩ := passes _ (loaded.starts world args)
  refine ⟨after, afterFine, proceeds, leads.trans (fun _ _ _ => run_add _ _ _) (LeadsBy.once ?_ ?_)⟩
  · rw [run_one, ret_stops loaded shows]
  · obtain ⟨offset, keepsResult, bytes, rfl, -, -⟩ := shows
    exact ⟨afterFine, rfl, .inl rfl⟩

/-- A program returns with its report, or it goes on forever. -/
theorem run_outcome (loaded : Loaded machine declaration selection target image main)
    (stable : Stable declaration target good) (accepting : Accepting good) (fine : good world)
    (args : List String) :
    (∃ outcomes after, Concluded declaration selection outcomes ∧ good after ∧
        world.Proceeds (report declaration.name world.clock world.readings outcomes)
          (2 * outcomes.length + 2) after ∧
        LeadsBy machine.run (Fine declaration image main good) (machine.start world (.run args))
          (.stopped (.returned .nil) after)) ∨
      ∀ steps, Fine declaration image main good
          (machine.run steps (machine.start world (.run args))) ∧
        Alive 0 (machine.run steps (machine.start world (.run args))) := by
  by_cases ends : ∀ test ∈ included declaration selection .test, ∃ ending,
      Tested declaration selection test ending
  · obtain ⟨outcomes, listed, tested⟩ := exists_outcomes ends
    obtain ⟨after, returns⟩ := report_returns loaded stable accepting fine ⟨listed, tested⟩ args
    exact .inl ⟨outcomes, after, ⟨listed, tested⟩, returns⟩
  · have endless : ∃ test ∈ included declaration selection .test, ∀ ending,
        ¬Tested declaration selection test ending := by
      simpa only [not_forall, not_exists, exists_prop] using ends
    have starts := loaded.starts world args
    rw [mainOrders_eq] at starts
    refine .inr (Endless.before ?_ (main_begins stable fine (accepting _ _ fine) args _ []) _ starts)
    exact tests_endless loaded stable accepting (stable.steady _ _ 1 fine) (fun _ member => member)
      endless args 0 _ _ _ []

end Runs

end Assay.Assembly
