import Assay.Proofs.Assembly.MainSteps
import Assay.Proofs.Assembly.NewInstances

/-!
What a program prints: one line for each included test, run on a new instance that the included fixtures
have prepared, and a summary.
-/

namespace Assay.Assembly

open Bytecode Assay.Graph Machine Syntax Typing

/-- The bodies end when they are run one after the other on the same fields. -/
inductive Prepared : List MemberDeclaration → Store → Store → Prop
  | nil {store : Store} : Prepared [] store store
  | cons {fixture : MemberDeclaration} {rest : List MemberDeclaration}
      {store middle final : Store} {ending : Ending} : Runs fixture.body store ending middle →
      Prepared rest middle final → Prepared (fixture :: rest) store final

/-- How a test ends on a new instance to which every included fixture was applied. -/
def Tested (declaration : ClassDeclaration) (selection : Selection) (test : MemberDeclaration)
    (ending : Ending) : Prop :=
  ∃ prepared final, Prepared (included declaration selection .fixture) (zeroStore declaration)
    prepared ∧ Runs test.body prepared ending final

abbrev Outcomes := List (MemberDeclaration × Ending)

def verdict (ending : Ending) : String := (ending.printed? .test).getD ""

def testName (test : MemberDeclaration) : String := "\t- " ++ test.name ++ ": "

def testLine (test : MemberDeclaration) (ending : Ending) (start finish : Int64) : String :=
  testName test ++ verdict ending ++ elapsedText start finish

def testLines (clock : Nat → Int64) (first : Nat) (outcomes : Outcomes) : String :=
  String.join (outcomes.mapIdx fun index (test, ending) =>
    testLine test ending (clock (first + (2 * index + 1))) (clock (first + (2 * index + 2))))

/-- The sum of the statuses of tests. -/
def failures (outcomes : Outcomes) : Int := (outcomes.map fun (_, ending) => ending.status.toInt).sum

def summary (clock : Nat → Int64) (first : Nat) (outcomes : Outcomes) : String :=
  toString ((outcomes.length : Int) - failures outcomes) ++ " passed, " ++
    toString (failures outcomes) ++ " failed " ++
    elapsedText (clock first) (clock (first + (2 * outcomes.length + 1)))

def banner (owner : String) : String := "Test execution for class " ++ owner ++ ":\n"

/-- What a program prints if its tests end like this and its first reading of the clock has that
number. -/
def report (owner : String) (clock : Nat → Int64) (first : Nat) (outcomes : Outcomes) : String :=
  banner owner ++ testLines clock first outcomes ++ summary clock first outcomes

theorem printed?_test (ending : Ending) : ending.printed? .test = some (verdict ending) := by
  cases ending <;> rfl

theorem testLines_cons (clock : Nat → Int64) (first : Nat) (test : MemberDeclaration)
    (ending : Ending) (rest : Outcomes) :
    testLines clock first ((test, ending) :: rest) =
      testLine test ending (clock (first + 1)) (clock (first + 2)) ++
        testLines clock (first + 2) rest := by
  simp only [testLines, List.mapIdx_cons, String.join_cons]
  congr 3
  funext index outcome
  congr 2
  · omega
  · omega

theorem failures_cons (test : MemberDeclaration) (ending : Ending) (rest : Outcomes) :
    failures ((test, ending) :: rest) = ending.status.toInt + failures rest := rfl

theorem status_range (ending : Ending) : 0 ≤ ending.status.toInt ∧ ending.status.toInt ≤ 1 := by
  cases ending <;> simp [Ending.status]

theorem failures_range (outcomes : Outcomes) :
    0 ≤ failures outcomes ∧ failures outcomes ≤ outcomes.length := by
  induction outcomes with
  | nil => decide
  | cons outcome rest ih =>
      obtain ⟨test, ending⟩ := outcome
      have range := status_range ending
      rw [failures_cons, List.length_cons]
      omega

theorem testOrders_append (declaration : ClassDeclaration) (testClass : String)
    (fixtures : List Signature) (test : MemberDeclaration) (rest : List Order) :
    testOrders declaration.name testClass fixtures (signatureOf declaration .test test) ++ rest =
      [.plain .nanoTime [], .plain .store [testStartLocal]] ++ printOrders (testName test) ++
        [.pooled .new (.ofString declaration.name)] ++
        (fixtureOrders testClass fixtures ++
          ([callOrder testClass (signatureOf declaration .test test), .plain .load [failuresLocal],
            .plain .add [], .plain .store [failuresLocal]] ++
              (elapsedOrders testStartLocal ++ rest))) := by
  simp [testOrders, testName, signatureOf]

def mainVariables (args : List String) (failures total start : Value) : Array Value :=
  #[.strings args, failures, total, start]

section Tests

variable {machine : Machine} {declaration : ClassDeclaration} {selection : Selection}
  {target image : ClassImage} {main : Routine} {good : World → Prop} {world : World}

theorem fixtures_pass (loaded : Loaded machine declaration selection target image main)
    (stable : Stable declaration target good) {fixtures : List MemberDeclaration} {store final : Store}
    (listed : ∀ fixture ∈ fixtures, fixture ∈ included declaration selection .fixture)
    {address : Nat} (instanced : Instanced declaration good world address store)
    (prepared : Prepared fixtures store final) :
    ∃ heap, Instanced declaration good { world with heap } address final ∧
      ∀ rest locals stack, Passes machine declaration image main good
        ⟨fixtureOrders image.name (fixtures.map (signatureOf declaration .fixture)) ++ rest, locals,
          .object address :: stack, world⟩
        ⟨rest, locals, .object address :: stack, { world with heap }⟩ := by
  induction prepared generalizing world with
  | nil => exact ⟨world.heap, instanced, fun _ _ _ => Passes.refl _⟩
  | @cons fixture others store middle final ending runs prepared ih =>
      obtain ⟨isIncluded, othersListed⟩ := List.forall_mem_cons.mp listed
      have announced : (world.showing address middle).announce (ending.printed? .fixture) =
          some (world.showing address middle) := rfl
      have typed := loaded.runs_typed isIncluded instanced.typed runs
      have later := instanced.announced stable typed announced
      obtain ⟨heap, finished, passes⟩ := ih othersListed later
      refine ⟨heap, finished, fun rest locals stack => ?_⟩
      refine (dup_passes instanced.fine _).trans (Passes.trans ?_ (passes rest locals stack))
      exact call_passes loaded stable isIncluded instanced runs announced

theorem test_begins (loaded : Loaded machine declaration selection target image main)
    (stable : Stable declaration target good) (fine : good world)
    {test : MemberDeclaration} (accepts : world.accepts (testName test) = true)
    (args : List String) (count total last : Value) :
    ∃ after, world.Proceeds (testName test) 1 after ∧
      Instanced declaration good after world.heap.size (zeroStore declaration) ∧
      ∀ rest stack, Passes machine declaration image main good
        ⟨[.plain .nanoTime [], .plain .store [testStartLocal]] ++
          printOrders (testName test) ++ [.pooled .new (.ofString declaration.name)] ++
          rest, mainVariables args count total last, stack, world⟩
        ⟨rest, mainVariables args count total (.int (world.clock world.readings)),
          .object world.heap.size :: stack, after⟩ := by
  have read : world.after "" 1 = { world with readings := world.readings + 1 } := by
    simp [World.after]
  have ticked := stable.steady _ "" 1 fine
  rw [read] at ticked
  have named := stable.steady _ (testName test) 0 ticked
  refine ⟨_, ?_, ⟨stable.allocated _ named, zeroStore_typed declaration, Object.new target, ?_,
    loaded.compiled.new_represents loaded.accepted⟩, fun rest stack => ?_⟩
  · exact ⟨rfl, rfl, rfl, rfl⟩
  · simp [World.object?, World.allocate, World.after]
  · simp only [List.append_assoc, List.cons_append, List.nil_append]
    have inside : testStartLocal.toNat < (mainVariables args count total last).size :=
      show 3 < 4 by decide
    refine (nanoTime_passes fine).trans ?_
    refine (store_passes ticked inside _).trans ?_
    refine (printOrders_pass ticked accepts).trans ?_
    exact new_passes named loaded.compiled.class?.2

theorem test_prepares (loaded : Loaded machine declaration selection target image main)
    (stable : Stable declaration target good) (fine : good world) {test : MemberDeclaration}
    {ending : Ending} (tested : Tested declaration selection test ending)
    (accepts : world.accepts (testName test) = true) (args : List String)
    (count total last : Value) :
    ∃ before prepared final, world.Proceeds (testName test) 1 before ∧
      Instanced declaration good before world.heap.size prepared ∧
      Runs test.body prepared ending final ∧
      ∀ rest stack, Passes machine declaration image main good
        ⟨testOrders declaration.name image.name (signatures declaration selection .fixture)
            (signatureOf declaration .test test) ++ rest,
          mainVariables args count total last, stack, world⟩
        ⟨[callOrder image.name (signatureOf declaration .test test), .plain .load [failuresLocal],
            .plain .add [], .plain .store [failuresLocal]] ++ (elapsedOrders testStartLocal ++ rest),
          mainVariables args count total (.int (world.clock world.readings)),
          .object world.heap.size :: stack, before⟩ := by
  obtain ⟨prepared, final, isPrepared, runs⟩ := tested
  obtain ⟨first, toFirst, newInstance, begins⟩ :=
    test_begins loaded stable fine accepts args count total last
  obtain ⟨heap, preparedInstance, fixturesPass⟩ :=
    fixtures_pass loaded stable (fun _ member => member) newInstance isPrepared
  refine ⟨{ first with heap }, prepared, final, toFirst.heap heap, preparedInstance, runs, ?_⟩
  intro rest stack
  rw [testOrders_append]
  exact (begins _ stack).trans (fixturesPass _ _ stack)

theorem status_passes (loaded : Loaded machine declaration selection target image main)
    (stable : Stable declaration target good) {test : MemberDeclaration}
    (isIncluded : test ∈ included declaration selection .test) {address : Nat} {store final : Store}
    (instanced : Instanced declaration good world address store) {ending : Ending}
    (runs : Runs test.body store ending final)
    (accepts : (world.showing address final).accepts (verdict ending) = true)
    (args : List String) (count : Int) (total start : Value) (rest : List Order)
    (stack : List Value) :
    Passes machine declaration image main good
      ⟨[callOrder image.name (signatureOf declaration .test test), .plain .load [failuresLocal],
          .plain .add [], .plain .store [failuresLocal]] ++ rest,
        mainVariables args (.int (.ofInt count)) total start, .object address :: stack, world⟩
      ⟨rest, mainVariables args (.int (.ofInt (ending.status.toInt + count))) total start, stack,
        (world.showing address final).after (verdict ending) 0⟩ := by
  have announced : (world.showing address final).announce (ending.printed? .test) =
      some ((world.showing address final).after (verdict ending) 0) := by
    rw [printed?_test]
    exact World.write?_of_accepts accepts
  have typed := loaded.runs_typed isIncluded instanced.typed runs
  have fine := (instanced.announced stable typed announced).fine
  have found : (mainVariables args (.int (.ofInt count)) total start)[failuresLocal.toNat]? =
      some (.int (.ofInt count)) := rfl
  have inside : failuresLocal.toNat <
      (mainVariables args (.int (.ofInt count)) total start).size := show 1 < 4 by decide
  rw [Int64.ofInt_add, Int64.ofInt_toInt]
  refine (call_passes loaded stable isIncluded instanced runs announced).trans ?_
  refine (load_passes fine found).trans ?_
  refine (add_passes fine _ _).trans ?_
  exact store_passes fine inside _

/-- A test that ends prints its line, for which the clock is read twice. -/
theorem test_passes (loaded : Loaded machine declaration selection target image main)
    (stable : Stable declaration target good) (fine : good world) {test : MemberDeclaration}
    (isIncluded : test ∈ included declaration selection .test) {ending : Ending}
    (tested : Tested declaration selection test ending)
    (accepts : world.accepts (testLine test ending (world.clock world.readings)
      (world.clock (world.readings + 1))) = true)
    (args : List String) (count : Int) (total last : Value) :
    ∃ after, world.Proceeds (testLine test ending (world.clock world.readings)
        (world.clock (world.readings + 1))) 2 after ∧ good after ∧
      ∀ rest stack, Passes machine declaration image main good
        ⟨testOrders declaration.name image.name
            (signatures declaration selection .fixture)
            (signatureOf declaration .test test) ++ rest,
          mainVariables args (.int (.ofInt count)) total last, stack, world⟩
        ⟨rest, mainVariables args (.int (.ofInt (ending.status.toInt + count))) total
          (.int (world.clock world.readings)), stack, after⟩ := by
  obtain ⟨begun, -⟩ := World.accepts_append accepts 0
  obtain ⟨named, -⟩ := World.accepts_append begun 0
  obtain ⟨before, prepared, final, toBefore, preparedInstance, runs, prepares⟩ :=
    test_prepares loaded stable fine tested named args (.int (.ofInt count)) total last
  have toSecond := toBefore.showing world.heap.size final
  have statusPasses := status_passes loaded stable isIncluded preparedInstance runs
    (toSecond.accepts begun) args count total (.int (world.clock world.readings))
  have toThird := toSecond.trans (World.proceeds_after _ (verdict ending) 0)
  have typed := loaded.runs_typed isIncluded preparedInstance.typed runs
  have thirdFine := stable.steady _ (verdict ending) 0
    (stable.showing _ world.heap.size final preparedInstance.fine typed)
  generalize (before.showing world.heap.size final).after (verdict ending) 0 = third
    at toThird thirdFine statusPasses
  have clock : third.clock third.readings = world.clock (world.readings + 1) := by
    rw [toThird.clock, toThird.readings]
  have found : (mainVariables args (.int (.ofInt (ending.status.toInt + count))) total
      (.int (world.clock world.readings)))[testStartLocal.toNat]? =
      some (.int (world.clock world.readings)) := rfl
  have timed := toThird.accepts accepts
  rw [← clock] at timed
  refine ⟨third.after (elapsedText (world.clock world.readings) (third.clock third.readings)) 1, ?_,
    stable.steady _ _ 1 thirdFine, fun rest stack => ?_⟩
  · rw [testLine, ← clock]
    exact toThird.trans (third.proceeds_after _ 1)
  · refine (prepares _ stack).trans ?_
    refine (statusPasses _ stack).trans ?_
    exact elapsedOrders_pass stable.steady thirdFine found timed

def testsOrders (declaration : ClassDeclaration) (selection : Selection) (testClass : String)
    (tests : List MemberDeclaration) : List Order :=
  (tests.map (signatureOf declaration .test)).flatMap (testOrders declaration.name testClass
    (signatures declaration selection .fixture))

theorem tests_pass (loaded : Loaded machine declaration selection target image main)
    (stable : Stable declaration target good) (fine : good world) {outcomes : Outcomes}
    (listed : ∀ outcome ∈ outcomes, outcome.1 ∈ included declaration selection .test)
    (tested : ∀ outcome ∈ outcomes, Tested declaration selection outcome.1 outcome.2)
    {clock : Nat → Int64} (sameClock : world.clock = clock) {first : Nat}
    (position : world.readings = first + 1)
    (accepts : world.accepts (testLines clock first outcomes) = true)
    (args : List String) (count : Int) (total last : Value) :
    ∃ after latest, world.Proceeds (testLines clock first outcomes) (2 * outcomes.length) after ∧
      good after ∧ ∀ rest stack, Passes machine declaration image main good
        ⟨testsOrders declaration selection image.name (outcomes.map Prod.fst) ++ rest,
          mainVariables args (.int (.ofInt count)) total last, stack, world⟩
        ⟨rest, mainVariables args (.int (.ofInt (failures outcomes + count))) total latest, stack,
          after⟩ := by
  induction outcomes generalizing world first count last with
  | nil =>
      refine ⟨world, last, ⟨String.append_empty.symm, rfl, rfl, rfl⟩, fine, fun rest stack => ?_⟩
      rw [show failures [] + count = count from Int.zero_add count]
      exact Passes.refl _
  | cons outcome others ih =>
      obtain ⟨test, ending⟩ := outcome
      obtain ⟨isIncluded, othersListed⟩ := List.forall_mem_cons.mp listed
      obtain ⟨isTested, othersTested⟩ := List.forall_mem_cons.mp tested
      rw [testLines_cons] at accepts ⊢
      have line : testLine test ending (clock (first + 1)) (clock (first + 2)) =
          testLine test ending (world.clock world.readings) (world.clock (world.readings + 1)) := by
        rw [sameClock, position]
      rw [line] at accepts ⊢
      obtain ⟨lineAccepted, -⟩ := World.accepts_append accepts 0
      obtain ⟨middle, toMiddle, middleFine, testPasses⟩ := test_passes loaded stable
        fine isIncluded isTested lineAccepted args count total last
      obtain ⟨after, latest, toAfter, afterFine, othersPass⟩ := ih middleFine othersListed othersTested
        (toMiddle.clock.trans sameClock) (by rw [toMiddle.readings, position])
        (toMiddle.accepts accepts) (ending.status.toInt + count)
        (.int (world.clock world.readings))
      refine ⟨after, latest, ?_, afterFine, fun rest stack => ?_⟩
      · have both := toMiddle.trans toAfter
        rw [show 2 + 2 * others.length = 2 * (others.length + 1) by omega] at both
        exact both
      · rw [failures_cons, Int.add_comm ending.status.toInt, Int.add_assoc]
        simp only [testsOrders, List.map_cons, List.flatMap_cons, List.append_assoc]
        exact (testPasses _ stack).trans (othersPass rest stack)

theorem toInt_ofInt_small {number : Int} (low : 0 ≤ number) (high : number ≤ 65536) :
    (Int64.ofInt number).toInt = number :=
  Int64.toInt_ofInt_of_le (by omega) (by omega)

theorem summary_passes (stable : Stable declaration target good) (fine : good world)
    {outcomes : Outcomes} (few : outcomes.length ≤ 65536) {clock : Nat → Int64}
    (sameClock : world.clock = clock) {first : Nat}
    (position : world.readings = first + (2 * outcomes.length + 1))
    (accepts : world.accepts (summary clock first outcomes) = true) (args : List String)
    (last : Value) (stack : List Value) :
    Passes machine declaration image main good
      ⟨summaryOrders outcomes.length, mainVariables args (.int (.ofInt (failures outcomes)))
        (.int (clock first)) last, stack, world⟩
      ⟨[.plain .ret []], mainVariables args (.int (.ofInt (failures outcomes))) (.int (clock first))
        last, stack, world.after (summary clock first outcomes) 1⟩ := by
  obtain ⟨low, high⟩ := failures_range outcomes
  have passed : (Value.int (Int64.ofNat outcomes.length - Int64.ofInt (failures outcomes))).printed? =
      some (toString ((outcomes.length : Int) - failures outcomes)) := by
    rw [← Int64.ofInt_eq_ofNat, ← Int64.ofInt_sub, Value.printed?,
      toInt_ofInt_small (by omega) (by omega)]
  have failed : (Value.int (Int64.ofInt (failures outcomes))).printed? =
      some (toString (failures outcomes)) := by
    rw [Value.printed?, toInt_ofInt_small low (by omega)]
  have count : (mainVariables args (.int (.ofInt (failures outcomes))) (.int (clock first))
      last)[failuresLocal.toNat]? = some (.int (.ofInt (failures outcomes))) := rfl
  have start : (mainVariables args (.int (.ofInt (failures outcomes))) (.int (clock first))
      last)[totalStartLocal.toNat]? = some (.int (clock first)) := rfl
  have reading : clock (first + (2 * outcomes.length + 1)) = world.clock world.readings := by
    rw [sameClock, position]
  rw [summary, reading] at accepts ⊢
  generalize mainVariables args (.int (.ofInt (failures outcomes))) (.int (clock first)) last = locals
    at count start ⊢
  generalize toString ((outcomes.length : Int) - failures outcomes) = passedText
    at passed accepts ⊢
  generalize toString (failures outcomes) = failedText at failed accepts ⊢
  obtain ⟨beforeTime, time⟩ := World.accepts_append accepts 0
  obtain ⟨beforeLabel, failedLabel⟩ := World.accepts_append beforeTime 0
  obtain ⟨beforeFailed, failedNumber⟩ := World.accepts_append beforeLabel 0
  obtain ⟨passedNumber, passedLabel⟩ := World.accepts_append beforeFailed 0
  have fineAfter := fun text => stable.steady world text 0 fine
  simp only [summaryOrders, List.append_assoc, List.cons_append, List.nil_append]
  refine (push_passes fine rfl rfl).trans ?_
  refine (load_passes fine count).trans ?_
  refine (sub_passes fine _ _).trans ?_
  refine (print_passes fine passed (World.write?_of_accepts passedNumber)).trans ?_
  refine (printOrders_pass (fineAfter _) passedLabel).trans ?_
  rw [World.after_after]
  refine (load_passes (fineAfter _) count).trans ?_
  refine (print_passes (fineAfter _) failed (World.write?_of_accepts failedNumber)).trans ?_
  rw [World.after_after]
  refine (printOrders_pass (fineAfter _) failedLabel).trans ?_
  rw [World.after_after]
  refine (elapsedOrders_pass stable.steady (fineAfter _) start time).trans ?_
  rw [World.after_after]
  exact Passes.refl _

theorem Loaded.arranged (loaded : Loaded machine declaration selection target image main) :
    ∃ bytes, main.code.toList = bytes ∧ Arranged image.constants
      (mainOrders declaration.name image.name
        (signatures declaration selection .fixture)
        (signatures declaration selection .test)) bytes := by
  have code := loaded.compiled.mainFor.code
  rw [loaded.accepted.fixtures, loaded.accepted.tests] at code
  rw [← filter_signatures, ← filter_signatures]
  exact code

theorem Loaded.few (loaded : Loaded machine declaration selection target image main) :
    (included declaration selection .test).length ≤ 65536 := by
  obtain ⟨bytes, -, arranged⟩ := loaded.arranged
  have injective : Function.Injective fun name => "\t- " ++ name ++ ": " := by
    intro first second same
    simpa using same
  have names : ((included declaration selection .test).map MemberDeclaration.name).Nodup := by
    have distinct := loaded.accepted.distinct
    rw [List.map_append] at distinct
    exact (List.filter_sublist.map _).nodup (List.nodup_append.mp distinct).2.1
  have distinct : ((included declaration selection .test).map testName).Nodup := by
    have mapped := names.map injective
    rw [List.map_map] at mapped
    exact mapped
  have pushed := arranged.few distinct ?_
  · simpa using pushed
  · intro text member
    obtain ⟨test, isTest, rfl⟩ := List.mem_map.mp member
    refine List.mem_append_left _ (List.mem_append_right _ ?_)
    refine List.mem_flatMap.mpr ⟨signatureOf declaration .test test, List.mem_map_of_mem isTest, ?_⟩
    simp [testOrders, printOrders, testName, signatureOf]

theorem main_begins (stable : Stable declaration target good) (fine : good world)
    (accepts : world.accepts (banner declaration.name) = true) (args : List String)
    (rest : List Order) (stack : List Value) :
    Passes machine declaration image main good
      ⟨[.plain .nanoTime [], .plain .store [totalStartLocal]] ++
        printOrders (banner declaration.name) ++
        [.pooled .pushConstant (.ofInt 0), .plain .store [failuresLocal]] ++ rest,
        mainVariables args .nil .nil .nil, stack, world⟩
      ⟨rest, mainVariables args (.int (.ofInt 0)) (.int (world.clock world.readings)) .nil, stack,
        world.after (banner declaration.name) 1⟩ := by
  have read : world.after "" 1 = { world with readings := world.readings + 1 } := by
    simp [World.after]
  have ticked := stable.steady _ "" 1 fine
  rw [read] at ticked
  have named := stable.steady _ (banner declaration.name) 1 fine
  have both : ({ world with readings := world.readings + 1 } : World).after
      (banner declaration.name) 0 = world.after (banner declaration.name) 1 := rfl
  have insideTotal : totalStartLocal.toNat < (mainVariables args .nil .nil .nil).size :=
    show 2 < 4 by decide
  have insideCount : failuresLocal.toNat < (mainVariables args .nil
      (.int (world.clock world.readings)) .nil).size := show 1 < 4 by decide
  simp only [List.append_assoc, List.cons_append, List.nil_append]
  refine (nanoTime_passes fine).trans ?_
  refine (store_passes ticked insideTotal _).trans ?_
  refine (printOrders_pass ticked accepts).trans ?_
  rw [both]
  refine (push_passes named rfl rfl).trans ?_
  exact store_passes named insideCount _

theorem mainOrders_eq (owner testClass : String) (fixtures tests : List Signature) :
    mainOrders owner testClass fixtures tests =
      [.plain .nanoTime [], .plain .store [totalStartLocal]] ++ printOrders (banner owner) ++
        [.pooled .pushConstant (.ofInt 0), .plain .store [failuresLocal]] ++
        (tests.flatMap (testOrders owner testClass fixtures) ++ summaryOrders tests.length) := by
  unfold mainOrders banner
  rw [List.append_assoc]

/-- If the tests end, the main routine comes to its return and has printed the report. -/
theorem main_passes (loaded : Loaded machine declaration selection target image main)
    (stable : Stable declaration target good) (fine : good world) {outcomes : Outcomes}
    (listed : outcomes.map Prod.fst = included declaration selection .test)
    (tested : ∀ outcome ∈ outcomes, Tested declaration selection outcome.1 outcome.2)
    (accepts : world.accepts (report declaration.name world.clock world.readings outcomes) = true)
    (args : List String) :
    ∃ after locals, good after ∧
      world.Proceeds (report declaration.name world.clock world.readings outcomes)
        (2 * outcomes.length + 2) after ∧
      Passes machine declaration image main good
        ⟨mainOrders declaration.name image.name
          (signatures declaration selection .fixture)
          (signatures declaration selection .test),
          mainVariables args .nil .nil .nil, [], world⟩
        ⟨[.plain .ret []], locals, [], after⟩ := by
  have sizes : outcomes.length = (included declaration selection .test).length := by
    rw [← listed, List.length_map]
  have members : ∀ outcome ∈ outcomes, outcome.1 ∈ included declaration selection .test := by
    intro outcome isOutcome
    rw [← listed]
    exact List.mem_map_of_mem isOutcome
  obtain ⟨beforeSummary, -⟩ := World.accepts_append accepts 0
  obtain ⟨named, lines⟩ := World.accepts_append beforeSummary 1
  have toTests := world.proceeds_after (banner declaration.name) 1
  obtain ⟨middle, last, toMiddle, middleFine, testsPass⟩ := tests_pass loaded stable
    (stable.steady _ (banner declaration.name) 1 fine) members tested rfl rfl lines args 0
    (.int (world.clock world.readings)) .nil
  have toSummary := toTests.trans toMiddle
  have counted : (signatures declaration selection .test).length = outcomes.length := by
    rw [sizes, signatures, List.length_map]
  have few : outcomes.length ≤ 65536 := by
    rw [sizes]
    exact loaded.few
  rw [Int.add_zero] at testsPass
  refine ⟨middle.after (summary world.clock world.readings outcomes) 1,
    mainVariables args (.int (.ofInt (failures outcomes))) (.int (world.clock world.readings)) last,
    stable.steady _ _ 1 middleFine, ?_, ?_⟩
  · have whole := toSummary.trans (middle.proceeds_after
      (summary world.clock world.readings outcomes) 1)
    rw [show 1 + 2 * outcomes.length + 1 = 2 * outcomes.length + 2 by omega] at whole
    exact whole
  · rw [mainOrders_eq]
    refine (main_begins stable fine named args _ []).trans ?_
    have onward := testsPass (summaryOrders outcomes.length) []
    simp only [testsOrders, listed] at onward
    rw [counted]
    refine onward.trans ?_
    exact summary_passes stable middleFine few toSummary.clock
      (by rw [toSummary.readings]; omega) (toSummary.accepts accepts) args last []

theorem Loaded.starts (loaded : Loaded machine declaration selection target image main)
    (world : World) (args : List String) :
    Spot.Shows image main
      ⟨mainOrders declaration.name image.name
        (signatures declaration selection .fixture)
        (signatures declaration selection .test),
        mainVariables args .nil .nil .nil, [], world⟩ (machine.start world (.run args)) := by
  obtain ⟨bytes, code, arranged⟩ := loaded.arranged
  have started : machine.start world (.run args) =
      .running (Frame.enter image main [.strings args]) [] world := by
    rw [start, loaded.compiled.entry]
    exact loaded.compiled.call (Nat.lt_of_succ_lt loaded.room) loaded.compiled.isMain
      loaded.compiled.mainFor.params loaded.compiled.mainFor.hasPlace
  have entered : Frame.enter image main [.strings args] =
      mainFrame image main (mainVariables args .nil .nil .nil) [] 0 false := by
    simp only [Frame.enter, loaded.compiled.mainFor.locals, loaded.compiled.mainFor.params]
    rfl
  refine ⟨0, false, bytes, ?_, ?_, arranged⟩
  · rw [started, entered]
  · exact ⟨[], by simp [code]⟩

theorem ret_stops (loaded : Loaded machine declaration selection target image main)
    {locals : Array Value} {stack : List Value} {state : State}
    (shows : Spot.Shows image main ⟨[.plain .ret []], locals, stack, world⟩ state) :
    machine.step state = .stopped (.returned .nil) world := by
  obtain ⟨offset, keepsResult, bytes, rfl, here, arranged⟩ := shows
  cases arranged with
  | plain encoded later =>
      rw [step_running, advance_encoded encoded here.left]
      simp only [execute, mainFrame, loaded.compiled.mainFor.returns]
      rfl

end Tests

/-- A program whose tests end runs to its end and prints its report, if the writer accepts it. The clock
is read twice for each test and twice for the whole. -/
theorem run_prints_report {declaration : ClassDeclaration} {runId : String}
    {selection : Selection} {program : Program} {log : List Logging.Event}
    (fine : (check declaration).diagnostics = [])
    (done : compile runId (check declaration) selection = (log, .ok program)) {limit : Int}
    (room : 2 ≤ (Machine.new program limit).frameLimit) {outcomes : Outcomes}
    (listed : outcomes.map Prod.fst = included declaration selection .test)
    (tested : ∀ outcome ∈ outcomes, Tested declaration selection outcome.1 outcome.2)
    {world : World}
    (accepts : world.accepts (report declaration.name world.clock world.readings outcomes) = true)
    (args : List String) :
    ∃ fuel after,
      (Machine.new program limit).respond fuel world (.run args) = some (.returned .nil, after) ∧
      after.output =
        world.output ++ report declaration.name world.clock world.readings outcomes ∧
      after.readings = world.readings + (2 * outcomes.length + 2) := by
  obtain ⟨target, image, main, loaded⟩ := loaded_of_compile fine done room
  have stable : Stable declaration target fun _ => True :=
    ⟨fun _ _ _ _ => trivial, fun _ _ => trivial, fun _ _ _ _ _ => trivial⟩
  obtain ⟨after, locals, -, proceeds, passes⟩ :=
    main_passes loaded stable trivial listed tested accepts args
  obtain ⟨last, ⟨steps, ran, -⟩, shows⟩ :=
    passes _ (loaded.starts world args)
  have stopped : (Machine.new program limit).run (steps + 1)
      ((Machine.new program limit).start world (.run args)) = .stopped (.returned .nil) after := by
    rw [run_add, ran, run_one, ret_stops loaded shows]
  refine ⟨steps + 1, after, ?_, proceeds.output, proceeds.readings⟩
  rw [respond, (settle_eq_some_iff _ _ _ _).mpr stopped]
  rfl

theorem lamp_tested : Tested lampClass .everything litMember .done := by
  refine ⟨(zeroStore lampClass).set "on" (.boolean true), _, ?_, .assertTrue rfl⟩
  have light : Prepared [lightMember] (zeroStore lampClass)
      ((zeroStore lampClass).set "on" (.boolean true)) := .cons (.assign rfl) .nil
  exact light

def lampOutcomes : Outcomes := [(litMember, .done)]

theorem run_prints_report_lamp : ∃ log program fuel after,
    (check lampClass).diagnostics = [] ∧
    compile "lamp" (check lampClass) .everything = (log, .ok program) ∧
    Tested lampClass .everything litMember .done ∧
    (Machine.new program 2).respond fuel (World.new Int64.ofNat none) (.run []) =
      some (.returned .nil, after) ∧
    after.output = "" ++ report lampClass.name Int64.ofNat 0 lampOutcomes ∧
    after.readings = 4 := by
  obtain ⟨log, program, done⟩ := lamp_compiled
  have fine : (check lampClass).diagnostics = [] := rfl
  have tested : ∀ outcome ∈ lampOutcomes, Tested lampClass .everything outcome.1 outcome.2 := by
    intro outcome member
    obtain rfl := List.mem_singleton.mp member
    exact lamp_tested
  have room : 2 ≤ (Machine.new program 2).frameLimit := Nat.le_refl 2
  obtain ⟨fuel, after, responded, output, readings⟩ :=
    run_prints_report fine done room (show lampOutcomes.map Prod.fst = _ from rfl) tested
      (show (World.new Int64.ofNat none).accepts _ = true from rfl) []
  exact ⟨log, program, fuel, after, fine, done, lamp_tested, responded, output, readings⟩

end Assay.Assembly
