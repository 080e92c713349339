import Assay.Proofs.Assembly.Totality
import Mathlib.Data.Nat.Find

/-!
Calls of compiled members. The routine of a member, called on an instance, does what the body of the
member does: it ends as the body ends, and it goes on forever if the body does.
-/

namespace Assay.Assembly

open Bytecode Assay.Graph Lowering Machine Syntax Typing

variable {machine : Machine} {routine : RoutineCode} {root : BlockIndex} {depth : Nat}
  {property : State → Prop}

def Alive (depth : Nat) : State → Prop
  | .running _ callers _ => depth ≤ callers.length
  | .stopped _ _ => False

def Moved (depth : Nat) (property : State → Prop) (state : State) : Prop :=
  ∃ earlier offset, property earlier ∧ state = earlier.move depth offset

theorem Alive.weaken {fewer more : Nat} {state : State} (alive : Alive more state)
    (bound : fewer ≤ more) : Alive fewer state := by
  cases state with
  | running frame callers world => exact Nat.le_trans bound alive
  | stopped outcome world => exact alive

theorem over_iff {walk : Walk} : walk.Over depth ↔ ¬Alive depth walk.state := by
  unfold Walk.Over Alive
  cases walk.state with
  | running frame callers world => simp
  | stopped outcome world => simp

theorem Tracks.lasts {rank : Nat} {walk : Walk} {state : State}
    (tracks : Tracks routine machine.program root depth rank walk state)
    (linearized : Linearized routine root) (alive : ∀ state, property state → Alive depth state)
    (lasts : ∀ fuel, Lasts machine routine.arena depth property fuel walk) (steps : Nat) :
    Moved depth property (machine.run steps state) := by
  rcases tracks.follows steps linearized with
    ⟨fuel, frame, callers, world, offset, walked, deep, ran⟩ | ⟨fuel, taken, before, ended, same⟩
  · refine ⟨_, offset, ?_, ran⟩
    rw [← walked]
    exact lasts fuel fuel (Nat.le_refl _)
  · exact absurd (alive _ (lasts fuel fuel (Nat.le_refl _))) (over_iff.mp ended)

/-- Where a walk leads and is over, the run that follows it comes as well. -/
theorem Tracks.leads {rank : Nat} {walk finish : Walk} {state : State}
    (tracks : Tracks routine machine.program root depth rank walk state)
    (linearized : Linearized routine root) (alive : ∀ state, property state → Alive depth state)
    (leads : Graph.Leads machine routine.arena depth property walk finish)
    (left : ¬Alive depth finish.state) :
    ∃ result, finish.state.Same result ∧
      LeadsBy machine.run (Moved depth property) state result := by
  classical
  obtain ⟨fuel, walked, before⟩ := leads
  have isOver : (Walk.run machine routine.arena depth fuel walk).Over depth := by
    rw [walked]
    exact over_iff.mpr left
  have ended : ∀ number, (Walk.run machine routine.arena depth number walk).Over depth →
      Walk.run machine routine.arena depth number walk = finish := by
    intro number numberOver
    by_cases early : number < fuel
    · exact absurd (alive _ (before number early)) (over_iff.mp numberOver)
    · obtain ⟨extra, rfl⟩ := Nat.exists_eq_add_of_le (Nat.le_of_not_lt early)
      rw [Walk.run_add, isOver.run, walked]
  obtain ⟨steps, next, last⟩ := tracks.follow fuel linearized
  have reached : ∃ steps, finish.state.Same (machine.run steps state) := by
    refine ⟨steps, ?_⟩
    rw [← walked]
    exact last.same_of_over isOver
  refine ⟨_, Nat.find_spec reached, Nat.find reached, rfl, fun earlier first => ?_⟩
  rcases tracks.follows earlier linearized with
    ⟨number, frame, callers, world, offset, here, deep, ran⟩ | ⟨number, taken, early, gone, same⟩
  · have notOver : ¬(Walk.run machine routine.arena depth number walk).Over depth := by
      rw [over_iff, here]
      exact fun gone => gone deep
    have soon : number < fuel := by
      by_contra late
      obtain ⟨extra, rfl⟩ := Nat.exists_eq_add_of_le (Nat.le_of_not_lt late)
      apply notOver
      rw [Walk.run_add, isOver.run]
      exact isOver
    refine ⟨_, offset, ?_, ran⟩
    rw [← here]
    exact before number soon
  · rw [ended number gone] at same
    exact absurd same (Nat.find_min reached (by omega))

/-- A compiled member of a class without errors is called on an instance of the class. -/
structure Calling (declaration : ClassDeclaration) (machine : Machine) (role : Role)
    (member : MemberDeclaration) (image : ClassImage) (routine : Routine) (world : World)
    (address : Nat) (store : Store) : Prop where
  accepted : Accepted declaration
  isMember : member ∈ declared declaration role
  static : AllStatic machine.program
  routineFor : RoutineFor role member.body image.constants routine
  typed : Typed (fieldType? declaration) store
  instanced : ∃ object, world.object? address = some object ∧ Represents object store

section Calling

variable {declaration : ClassDeclaration} {role : Role} {member : MemberDeclaration}
  {image : ClassImage} {code : Routine} {world : World} {address : Nat} {store : Store}
  {callers : List Frame}

def callScene (declaration : ClassDeclaration) (machine : Machine) (arena : Arena)
    (image : ClassImage) (code : Routine) (callers : List Frame) (world : World) (address : Nat) :
    Scene :=
  { machine, arena, frame := Frame.enter image code [.object address], callers, base := world, address
    types := fieldType? declaration }

theorem Calling.ready (calling : Calling declaration machine role member image code world address store)
    (arena : Arena) (callers : List Frame) :
    (callScene declaration machine arena image code callers world address).Ready := by
  obtain ⟨object, found, represents⟩ := calling.instanced
  exact Scene.ready_of_represents (enter_receiver _ _ _) found represents calling.typed

theorem Calling.enter (calling : Calling declaration machine role member image code world address store)
    (arena : Arena) (root : BlockIndex) (callers : List Frame) :
    (callScene declaration machine arena image code callers world address).enter root store [] =
      .enter arena root (.running (Frame.enter image code [.object address]) callers world) := by
  obtain ⟨object, found, represents⟩ := calling.instanced
  simp only [Scene.enter, Scene.state, callScene, World.showing_of_represents found represents]
  rfl

theorem Calling.tracks
    (calling : Calling declaration machine role member image code world address store)
    (callers : List Frame) :
    ∃ resolution start finish root, ∃ linked : RoutineCode,
      (lowerBody role resolution member.body).run start = (.ok root, finish) ∧
      finish.Extends linked.arena ∧ Linearized linked root ∧
      ∃ rank, Tracks linked machine.program root callers.length rank
        ((callScene declaration machine linked.arena image code callers world address).enter root
          store [])
        (.running (Frame.enter image code [.object address]) callers world) := by
  obtain ⟨resolution, root, linked, graph⟩ := calling.routineFor.graph
  obtain ⟨start, finish, lowered, extended⟩ := graph.lowered
  refine ⟨resolution, start, finish, root, linked, lowered, extended, graph.linearized, ?_⟩
  have hosts : Hosts linked (Frame.enter image code [.object address]) :=
    ⟨graph.code.symm, graph.retains⟩
  rw [calling.enter]
  exact graph.linearized.start_tracks machine callers world hosts
    (unambiguous_of_allStatic calling.static _ _ _)

theorem Calling.returns
    (calling : Calling declaration machine role member image code world address store) :
    ReturnsFor role code := by
  have known := calling.routineFor.returns
  cases role with
  | test =>
      simp only [Role.resultKind, kindOf, Except.ok.injEq] at known
      simp [ReturnsFor, ← known]
  | fixture =>
      simp only [Role.resultKind, kindOf, Except.ok.injEq] at known
      exact known.symm

structure Throughout (declaration : ClassDeclaration) (image : ClassImage) (code : Routine)
    (callers : List Frame) (world : World) (address : Nat) (property : State → Prop) : Prop where
  alive : ∀ state, property state → Alive callers.length state
  calm : ∀ store message after stack, Typed (fieldType? declaration) store →
    (world.showing address store).announce message = some after →
    property (.running { Frame.enter image code [.object address] with stack } callers after)

theorem Throughout.scene
    (throughout : Throughout declaration image code callers world address property)
    (arena : Arena) :
    (callScene declaration machine arena image code callers world address).Calm property :=
  fun store stack typed => throughout.calm store none _ stack typed rfl

theorem Calling.arrives
    (calling : Calling declaration machine role member image code world address store)
    (throughout : Throughout declaration image code callers world address property)
    {ending : Ending} {final : Store} (runs : Runs member.body store ending final) :
    ∃ (linked : RoutineCode) (root : BlockIndex) (rank : Nat) (id : BlockIndex),
      let scene := callScene declaration machine linked.arena image code callers world address
      Linearized linked root ∧
      Tracks linked machine.program root callers.length rank (scene.enter root store [])
        (.running (Frame.enter image code [.object address]) callers world) ∧
      HasCode linked.arena id (endCode role ending) ∧
      scene.Leads property (scene.enter root store []) (scene.enter id final []) := by
  obtain ⟨resolution, start, finish, root, linked, lowered, extended, linearized, rank, tracks⟩ :=
    calling.tracks callers
  obtain ⟨id, has, leads⟩ := lowerBody_leads (calling.ready linked.arena callers)
    (throughout.scene linked.arena) (calling.accepted.fieldType? role).symm
    (calling.accepted.body_fine calling.isMember) calling.typed lowered extended runs
  exact ⟨linked, root, rank, id, linearized, tracks, has, leads⟩

/-- If the body ends, so does the call, with the result of the member and after its message. -/
theorem Calling.leads
    (calling : Calling declaration machine role member image code world address store)
    (throughout : Throughout declaration image code callers world address property)
    {ending : Ending} {final : Store} (runs : Runs member.body store ending final) {after : World}
    (announced : (world.showing address final).announce (ending.printed? role) = some after) :
    LeadsBy machine.run (Moved callers.length property)
      (.running (Frame.enter image code [.object address]) callers world)
      (deliver (ending.result role) after callers) := by
  obtain ⟨linked, root, rank, id, linearized, tracks, has, first⟩ := calling.arrives throughout runs
  have calm : (callScene declaration machine linked.arena image code callers world address).Calm
    property := throughout.scene _
  have finalTyped := calling.accepted.runs_typed calling.isMember calling.typed runs
  obtain ⟨left, transfer, second⟩ := (end_leads calm finalTyped calling.returns has).1 after
    announced (fun stack => throughout.calm final _ after stack finalTyped announced)
  have ended : ¬Alive callers.length (deliver (ending.result role) after callers) := by
    cases callers with
    | nil => simp [deliver, Alive]
    | cons caller rest => simp [deliver, Alive]
  obtain ⟨result, same, leads⟩ :=
    tracks.leads linearized throughout.alive (first.trans second) ended
  have equal : result = deliver (ending.result role) after callers := by
    cases callers with
    | nil =>
        obtain ⟨outcome, sameOutcome, rfl⟩ := State.Same.of_stopped same
        cases sameOutcome
        rfl
    | cons caller rest => exact State.Same.of_running same
  rw [← equal]
  exact leads

theorem Calling.refused
    (calling : Calling declaration machine role member image code world address store)
    (throughout : Throughout declaration image code callers world address property)
    {ending : Ending} {final : Store} (runs : Runs member.body store ending final)
    (refused : (world.showing address final).announce (ending.printed? role) = none) :
    ∃ failure after, LeadsBy machine.run (Moved callers.length property)
      (.running (Frame.enter image code [.object address]) callers world)
      (.stopped (.failed failure) after) := by
  obtain ⟨linked, root, rank, id, linearized, tracks, has, first⟩ := calling.arrives throughout runs
  have calm : (callScene declaration machine linked.arena image code callers world address).Calm
    property := throughout.scene _
  have finalTyped := calling.accepted.runs_typed calling.isMember calling.typed runs
  obtain ⟨left, transfer, stack, second⟩ := (end_leads calm finalTyped calling.returns has).2 refused
  obtain ⟨result, same, leads⟩ :=
    tracks.leads linearized throughout.alive (first.trans second) (by simp [failWith, Alive])
  obtain ⟨outcome, sameOutcome, rfl⟩ := State.Same.of_stopped same
  cases sameOutcome
  exact ⟨_, _, leads⟩

/-- If the body does not end, the call goes on forever. -/
theorem Calling.lasts
    (calling : Calling declaration machine role member image code world address store)
    (throughout : Throughout declaration image code callers world address property)
    (endless : ∀ ending final, ¬Runs member.body store ending final) (steps : Nat) :
    Moved callers.length property
      (machine.run steps (.running (Frame.enter image code [.object address]) callers world)) := by
  obtain ⟨resolution, start, finish, root, linked, lowered, extended, linearized, rank, tracks⟩ :=
    calling.tracks callers
  have types := (calling.accepted.fieldType? role).symm
  refine tracks.lasts linearized throughout.alive (fun fuel => ?_) steps
  exact lowerBody_lasts (calling.ready _ _) (throughout.scene _) types
    (calling.accepted.body_fine calling.isMember) calling.typed lowered extended
    fun ending final id runs _ => absurd runs (endless ending final)

end Calling

theorem Compiled.class? {declaration : ClassDeclaration} {selection : Selection} {program : Program}
    {target image : ClassImage} {main : Routine}
    (compiled : Compiled declaration selection program target image main) :
    program.class? image.name = some image ∧ program.class? declaration.name = some target := by
  have different : target.name ≠ image.name := by
    rw [compiled.targetName, compiled.imageName]
    exact testClassName_ne _
  rw [← compiled.targetName]
  simp [Program.class?, compiled.classes, different]

theorem Compiled.lookup {declaration : ClassDeclaration} {selection : Selection} {program : Program}
    {target image : ClassImage} {main routine : Routine} {name : String}
    (compiled : Compiled declaration selection program target image main)
    (found : image.routine? name = some routine) :
    program.lookup image.name name = .ok (image, routine) := by
  simp only [Program.lookup, compiled.class?.1, found]

theorem new_frameLimit_pos (program : Program) (limit : Int) :
    0 < (Machine.new program limit).frameLimit := by
  simp only [Machine.new, defaultFrameLimit]
  split
  · omega
  · omega

/-- The call of a routine of the test class with its one argument. -/
theorem Compiled.call {declaration : ClassDeclaration} {selection : Selection} {machine : Machine}
    {target image : ClassImage} {main routine : Routine} {name : String} {world : World}
    {value : Value} (compiled : Compiled declaration selection machine.program target image main)
    (room : 0 < machine.frameLimit) (found : image.routine? name = some routine)
    (params : routine.params = 1) (place : Frame.hasPlace routine = true) :
    machine.call world image.name name [value] =
      .running (Frame.enter image routine [value]) [] world := by
  simp only [Machine.call, compiled.lookup found]
  exact enterCall_ok params room place

theorem respond_call_iff {machine : Machine} {owner name : String} {args : List Value}
    {world after : World} {outcome : Outcome} (fuel : Nat) :
    machine.respond fuel world (.call owner name args) = some (outcome, after) ↔
      machine.run fuel (machine.call world owner name args) = .stopped outcome after := by
  rw [← settle_eq_some_iff]
  simp only [respond, start, Request.answer, Option.map_eq_some_iff, Prod.exists, Prod.mk.injEq]
  constructor
  · rintro ⟨other, later, settled, rfl, rfl⟩
    exact settled
  · exact fun settled => ⟨outcome, after, settled, rfl, rfl⟩

theorem respond_run_iff {machine : Machine} {args : List String} {world after : World} (fuel : Nat) :
    machine.respond fuel world (.run args) = some (.returned .nil, after) ↔
      ∃ value, machine.run fuel (machine.start world (.run args)) =
        .stopped (.returned value) after := by
  simp only [← settle_eq_some_iff, respond, Option.map_eq_some_iff, Prod.exists, Prod.mk.injEq]
  constructor
  · rintro ⟨outcome, later, settled, answered, rfl⟩
    cases outcome with
    | returned value => exact ⟨value, settled⟩
    | failed failure => cases answered
    | crashed => cases answered
  · rintro ⟨value, settled⟩
    exact ⟨.returned value, after, settled, rfl, rfl⟩

theorem run_stopped_unique {machine : Machine} {state : State} {first second : Nat}
    {one other : Outcome} {oneWorld otherWorld : World}
    (ran : machine.run first state = .stopped one oneWorld)
    (ranToo : machine.run second state = .stopped other otherWorld) :
    one = other ∧ oneWorld = otherWorld := by
  have late := run_stopped_of_le ran (Nat.le_max_left first second)
  have lateToo := run_stopped_of_le ranToo (Nat.le_max_right first second)
  rw [late] at lateToo
  simpa using lateToo

/-- A call of a compiled member on an instance returns if and only if the body of the member ends, and
then with the status of the member, after the fields of the instance have got their final values and
the verdict of a test has been printed; nothing else changes. -/
theorem member_call_correct {declaration : ClassDeclaration} {runId : String}
    {selection : Selection} {program : Program} {log : List Logging.Event}
    (fine : (check declaration).diagnostics = [])
    (done : compile runId (check declaration) selection = (log, .ok program))
    {role : Role} {member : MemberDeclaration} (isMember : member ∈ declared declaration role)
    (included : selection.includes (signatureOf declaration role member) = true)
    {store : Store} (typed : Typed (fieldType? declaration) store) {world : World} {address : Nat}
    {object : Object} (found : world.object? address = some object)
    (represents : Represents object store) (limit : Int) (value : Value) (after : World) :
    (∃ fuel, (Machine.new program limit).respond fuel world
        (.call (testClassName declaration.name) member.name [.object address]) =
          some (.returned value, after)) ↔
      ∃ ending final, Runs member.body store ending final ∧ value = ending.result role ∧
        Represents (object.holding final) final ∧
        (world.showing address final).announce (ending.printed? role) = some after := by
  obtain ⟨target, image, main, compiled⟩ := compile_ok fine done
  obtain ⟨routine, isRoutine, routineFor⟩ := compiled.members role member isMember included
  have calling : Calling declaration (Machine.new program limit) role member image routine world
      address store :=
    ⟨accepted_of_no_errors fine, isMember, compiled.static, routineFor, typed, object, found,
      represents⟩
  have entered : (Machine.new program limit).call world (testClassName declaration.name) member.name
      [.object address] = .running (Frame.enter image routine [.object address]) [] world := by
    rw [← compiled.imageName]
    exact Compiled.call compiled (new_frameLimit_pos program limit) isRoutine routineFor.params
      routineFor.hasPlace
  have throughout : Throughout declaration image routine [] world address (Alive 0) :=
    ⟨fun state alive => alive, fun _ _ _ _ _ _ => Nat.le_refl _⟩
  simp only [respond_call_iff, entered]
  constructor
  · rintro ⟨fuel, returned⟩
    by_cases ends : ∃ ending final, Runs member.body store ending final
    · obtain ⟨ending, final, runs⟩ := ends
      cases announced : (world.showing address final).announce (ending.printed? role) with
      | none =>
          obtain ⟨failure, late, steps, ran, -⟩ := calling.refused throughout runs announced
          have same := (run_stopped_unique returned ran).1
          simp at same
      | some last =>
          obtain ⟨steps, ran, -⟩ := calling.leads throughout runs announced
          obtain ⟨sameValue, rfl⟩ := run_stopped_unique returned ran
          refine ⟨ending, final, runs, by simpa using sameValue, represents.holding ?_, announced⟩
          exact typed.same_fields (calling.accepted.runs_typed calling.isMember calling.typed runs)
    · have endless : ∀ ending final, ¬Runs member.body store ending final :=
        fun ending final runs => ends ⟨ending, final, runs⟩
      obtain ⟨earlier, offset, alive, ran⟩ := calling.lasts throughout endless fuel
      rw [returned] at ran
      cases earlier with
      | running frame callers world =>
          simp only [State.move] at ran
          split at ran
          · simp at ran
          · simp at ran
      | stopped outcome world => exact absurd alive id
  · rintro ⟨ending, final, runs, rfl, -, announced⟩
    obtain ⟨fuel, ran, -⟩ := calling.leads throughout runs announced
    exact ⟨fuel, ran⟩

def lampStore : Store := fun name => if name = "on" then some (.boolean true) else none

def lampObject : Object := { owner := "Lamp", fields := [("on", .int 1)] }

theorem lampStore_typed : Typed (fieldType? lampClass) lampStore := by
  intro name
  by_cases isOn : name = "on"
  · subst isOn
    rfl
  · have other : "on" ≠ name := fun same => isOn same.symm
    simp [lampStore, isOn, fieldType?, lampClass, other]

theorem lampObject_represents : Represents lampObject lampStore where
  distinct := by decide
  values := by
    intro name
    by_cases isOn : name = "on"
    · subst isOn
      rfl
    · have unequal : (name == "on") = false := by simpa using isOn
      simp [Object.get?, lampObject, List.lookup_cons, unequal, lampStore, isOn]

def lampWorld : World := { World.new (fun _ => 0) none with heap := #[lampObject] }

theorem member_call_correct_lamp : ∃ log program,
    (check lampClass).diagnostics = [] ∧
    compile "lamp" (check lampClass) .everything = (log, .ok program) ∧
    Typed (fieldType? lampClass) lampStore ∧ Represents lampObject lampStore ∧
    ∀ value after,
    (∃ fuel, (Machine.new program 0).respond fuel lampWorld
        (.call (testClassName lampClass.name) litMember.name [.object 0]) =
          some (.returned value, after)) ↔
      ∃ ending final, Runs litMember.body lampStore ending final ∧
        value = ending.result .test ∧ Represents (lampObject.holding final) final ∧
        (lampWorld.showing 0 final).announce (ending.printed? .test) = some after := by
  obtain ⟨log, program, done⟩ := lamp_compiled
  have fine : (check lampClass).diagnostics = [] := rfl
  have isMember : litMember ∈ declared lampClass .test := List.mem_singleton.mpr rfl
  exact ⟨log, program, fine, done, lampStore_typed, lampObject_represents, fun value after =>
    member_call_correct fine done isMember rfl lampStore_typed rfl lampObject_represents 0 value
      after⟩

end Assay.Assembly
