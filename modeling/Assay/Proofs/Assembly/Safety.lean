import Assay.Proofs.Assembly.Completion
import Assay.Proofs.Lowering.Parts

/-!
A program made from a class without errors never fails. Its instances keep values of the declared types
in their fields, and every expression leaves a value of its static type on the stack.
-/

namespace Assay

namespace Typing

open Machine Syntax

def Ty.Admits : Ty → Value → Prop
  | int, .int _ => True
  | boolean, .int value => value = 0 ∨ value = 1
  | float, .float _ => True
  | _, _ => False

theorem admits_toValue (datum : Datum) : datum.type.Admits datum.toValue := by
  cases datum with
  | int value => trivial
  | boolean value => cases value <;> simp [Datum.type, Datum.toValue, Ty.Admits]
  | float value => trivial

end Typing

namespace Assembly

open Bytecode Assay.Graph Lowering Machine Syntax Typing

def RoutineCode.At (routine : RoutineCode) (offset : Nat) (id : BlockIndex) : Prop :=
  ∃ block rest bytes left, routine.arena.get? id = some block ∧
    routine.Stands offset block.code block.transfer rest bytes left

section Values

variable {machine : Machine} {linked : RoutineCode} {root : BlockIndex} {depth : Nat}

theorem Tracks.at_enter {rank : Nat} {id : BlockIndex} {frame : Frame} {callers : List Frame}
    {world : World} {state : State}
    (tracks : Tracks linked machine.program root callers.length rank
      (.enter linked.arena id (.running frame callers world)) state) :
    ∃ offset, state = .running { frame with offset } callers world ∧ linked.At offset id := by
  cases found : linked.arena.get? id with
  | none =>
      have entered : Walk.enter linked.arena id (.running frame callers world) =
          ⟨[], .exit, .running frame callers world⟩ := by simp only [Walk.enter, found]
      rw [entered] at tracks
      cases tracks with
      | gone code transfer frame world short => omega
      | inside world deep waits hosts unambiguous within =>
          obtain ⟨bytes, left, stands⟩ := within.stands
          have returns := stands.returns rfl
          simp [endsWithReturn] at returns
  | some block =>
      have entered : Walk.enter linked.arena id (.running frame callers world) =
          ⟨block.code, block.transfer, .running frame callers world⟩ := by
        simp only [Walk.enter, found]
      rw [entered] at tracks
      cases tracks with
      | gone code transfer frame world short => omega
      | @inside _ _ _ _ _ _ offset rest deep waits hosts unambiguous within =>
          obtain ⟨bytes, left, stands⟩ := within.stands
          refine ⟨offset, ?_, block, rest, bytes, left, found, stands⟩
          simp only [State.move, if_true]

theorem Lowered.leaves {declaration : ClassDeclaration} {resolution : Resolution}
    {expression : Expression} {entry next : BlockIndex}
    (lowered : Lowered linked.arena resolution expression entry next)
    (linearized : Linearized linked root) (reachable : Reachable linked.arena root entry)
    (static : AllStatic machine.program) {frame : Frame} (hosts : Hosts linked frame)
    {address : Nat} (receiver : frame.locals[0]? = some (.object address)) {world : World}
    {good : World → Prop} {store : Store}
    (instanced : Instanced declaration good world address store)
    (here : linked.At frame.offset entry) {datum : Datum}
    (value : expression.value? store = some datum) (callers : List Frame) :
    ∃ steps offset, machine.run steps (.running frame callers world) =
        .running { frame with offset, stack := datum.toValue :: frame.stack } callers world ∧
      linked.At offset next := by
  obtain ⟨before, after, done, extended⟩ := lowered
  obtain ⟨object, found, represents⟩ := instanced.found
  obtain ⟨block, rest, bytes, left, isBlock, stands⟩ := here
  let scene : Scene :=
    { machine, arena := linked.arena, frame, callers, base := world, address
      types := fieldType? declaration }
  have enters : ∀ id stack, scene.enter id store stack =
      .enter linked.arena id (.running { frame with stack } callers world) := by
    intro id stack
    simp only [Scene.enter, Scene.state, scene, World.showing_of_represents found represents]
  have ready : scene.Ready := Scene.ready_of_represents receiver found represents instanced.typed
  have calm : scene.Calm fun _ => True := fun _ _ _ => trivial
  have leads : scene.Leads _ (scene.enter entry store frame.stack)
      (scene.enter next store (datum.toValue :: frame.stack)) :=
    lowerExpression_settles ready calm instanced.typed done extended value frame.stack
  rw [enters, enters] at leads
  obtain ⟨fuel, walked, -⟩ := leads
  have tracks : Tracks linked machine.program root callers.length rest.length
      (.enter linked.arena entry (.running frame callers world)) (.running frame callers world) := by
    have within := Within.of_block reachable isBlock stands
    have entered : Walk.enter linked.arena entry (.running frame callers world) =
        ⟨block.code, block.transfer, .running frame callers world⟩ := by
      simp only [Walk.enter, isBlock]
    have moved : (State.running frame callers world).move callers.length frame.offset =
        .running frame callers world := by
      simp only [State.move, if_true]
    rw [entered]
    nth_rewrite 2 [← moved]
    exact .inside world (Nat.le_refl _) (by simp only [frameAt?, if_true]) hosts
      (unambiguous_of_allStatic static _ _ _) within
  obtain ⟨steps, last, followed⟩ := tracks.follow fuel linearized
  rw [walked] at followed
  obtain ⟨offset, ran, there⟩ := followed.at_enter
  exact ⟨steps, offset, ran, there⟩

end Values

/-- Every object is an instance with values of the declared types, and all that is written is accepted. -/
structure Orderly (declaration : ClassDeclaration) (world : World) : Prop where
  unlimited : world.outputLimit = none
  instances : ∀ object ∈ world.heap, ∃ store, Typed (fieldType? declaration) store ∧
    Represents object store

theorem Orderly.accepts {declaration : ClassDeclaration} {world : World}
    (orderly : Orderly declaration world) (text : String) : world.accepts text = true := by
  simp only [World.accepts, orderly.unlimited]

theorem fields_admitted {declaration : ClassDeclaration} {object : Object} {store : Store}
    (typed : Typed (fieldType? declaration) store) (represents : Represents object store)
    {name : String} {type : Ty} (declared : fieldType? declaration name = some type) :
    ∃ value, object.get? name = some value ∧ type.Admits value := by
  have stored := typed name
  rw [declared, Option.map_eq_some_iff] at stored
  obtain ⟨datum, present, rfl⟩ := stored
  exact ⟨datum.toValue, by rw [represents.values, present]; rfl, admits_toValue datum⟩

section Runs

variable {machine : Machine} {declaration : ClassDeclaration} {selection : Selection}
  {target image : ClassImage} {main : Routine} {world : World}

theorem Loaded.stable (loaded : Loaded machine declaration selection target image main) :
    Stable declaration target (Orderly declaration) where
  steady := fun _ _ _ orderly => ⟨orderly.unlimited, orderly.instances⟩
  allocated := by
    intro world orderly
    refine ⟨orderly.unlimited, fun object member => ?_⟩
    rcases Array.mem_push.mp member with old | rfl
    · exact orderly.instances object old
    · exact ⟨zeroStore declaration, zeroStore_typed declaration,
        loaded.compiled.new_represents loaded.accepted⟩
  showing := by
    intro world address store orderly typed
    refine ⟨orderly.unlimited, fun object member => ?_⟩
    obtain ⟨index, inside, rfl⟩ := Array.mem_iff_getElem.mp member
    simp only [World.showing, Array.size_modify] at inside
    obtain ⟨old, oldTyped, represents⟩ := orderly.instances _ (Array.getElem_mem inside)
    simp only [World.showing, Array.getElem_modify]
    split
    · exact ⟨store, typed, represents.holding (oldTyped.same_fields typed)⟩
    · exact ⟨old, oldTyped, represents⟩

/-- Every state of a run of the program is fine. -/
theorem run_fine (loaded : Loaded machine declaration selection target image main)
    (orderly : Orderly declaration world) (args : List String) (steps : Nat) :
    Fine declaration image main (Orderly declaration)
      (machine.run steps (machine.start world (.run args))) := by
  rcases run_outcome loaded loaded.stable (fun _ text good => good.accepts text) orderly args with
    ⟨outcomes, after, -, afterOrderly, -, taken, ran, before⟩ | endless
  · by_cases early : steps < taken
    · exact before steps early
    · rw [run_stopped_of_le ran (Nat.le_of_not_lt early)]
      exact afterOrderly
  · exact (endless steps).1

end Runs

def FieldsTyped (declaration : ClassDeclaration) (world : World) : Prop :=
  ∀ object ∈ world.heap, ∀ name type, fieldType? declaration name = some type →
    ∃ value, object.get? name = some value ∧ type.Admits value

/-- The machine runs or has returned, and the fields have values of their types. -/
def Safe (declaration : ClassDeclaration) : State → Prop
  | .running _ _ world => FieldsTyped declaration world
  | .stopped (.returned _) world => FieldsTyped declaration world
  | .stopped _ _ => False

/-- Whenever a run comes to one block in the code of a routine, it comes to the other with a value of the
type on the stack and everything else as it was. -/
def Leaves (machine : Machine) (start : State) (routine : Routine) (linked : RoutineCode)
    (entry next : BlockIndex) (type : Ty) : Prop :=
  ∀ steps frame callers world, machine.run steps start = .running frame callers world →
    frame.routine = routine → linked.At frame.offset entry →
    ∃ more offset value, machine.run (steps + more) start =
        .running { frame with offset, stack := value :: frame.stack } callers world ∧
      linked.At offset next ∧ type.Admits value

theorem safe_of_fine {declaration : ClassDeclaration} {image : ClassImage} {main : Routine}
    {state : State} (fine : Fine declaration image main (Orderly declaration) state) :
    Safe declaration state := by
  have admitted : ∀ world, Orderly declaration world → FieldsTyped declaration world := by
    intro world orderly object member name type declared
    obtain ⟨store, typed, represents⟩ := orderly.instances object member
    exact fields_admitted typed represents declared
  cases state with
  | running frame callers world => exact admitted world fine.1
  | stopped outcome world =>
      cases outcome with
      | returned value => exact admitted world fine
      | failed failure => exact fine
      | crashed => exact fine

theorem orderly_new (declaration : ClassDeclaration) (clock : Nat → Int64) :
    Orderly declaration (World.new clock none) :=
  ⟨rfl, fun _ member => absurd member (Array.not_mem_empty _)⟩

/-- Type soundness. No run of a program made from a class without errors ever fails, if all that is
written is accepted and there is room for two frames; every field always has a value of its declared
type, and every expression leaves a value of its static type on the stack. -/
theorem run_type_safe {declaration : ClassDeclaration} {runId : String}
    {selection : Selection} {program : Program} {log : List Logging.Event}
    (fine : (check declaration).diagnostics = [])
    (done : compile runId (check declaration) selection = (log, .ok program)) {limit : Int}
    (room : 2 ≤ (Machine.new program limit).frameLimit) (clock : Nat → Int64)
    (args : List String) :
    let machine := Machine.new program limit
    let start := machine.start (World.new clock none) (.run args)
    (∀ steps, Safe declaration (machine.run steps start)) ∧
      ∀ role, ∀ member ∈ included declaration selection role,
        ∃ image routine resolution root linked,
          program.lookup (testClassName declaration.name) member.name = .ok (image, routine) ∧
          GraphOf role member.body image.constants routine resolution root linked ∧
          ∀ expression ∈ member.body.stacked,
            (∃ entry next, Lowered linked.arena resolution expression entry next) ∧
            ∀ entry next, Lowered linked.arena resolution expression entry next →
              Reachable linked.arena root entry →
              Leaves machine start routine linked entry next
                (typeOf (Member.checkerFor role (check declaration).type) expression) := by
  obtain ⟨target, image, main, loaded⟩ := loaded_of_compile fine done room
  have accepted := loaded.accepted
  have compiled : Compiled declaration selection program target image main := loaded.compiled
  have everyFine := run_fine loaded (orderly_new declaration clock) args
  refine ⟨fun steps => safe_of_fine (everyFine steps), fun role member isIncluded => ?_⟩
  obtain ⟨isMember, isSelected⟩ := mem_included.mp isIncluded
  obtain ⟨routine, isRoutine, routineFor⟩ := compiled.members role member isMember isSelected
  obtain ⟨resolution, root, linked, graph⟩ := routineFor.graph
  have looked := compiled.lookup isRoutine
  rw [compiled.imageName] at looked
  refine ⟨image, routine, resolution, root, linked, looked, graph, fun expression isPart =>
    ⟨?_, fun entry next lowered reachable => ?_⟩⟩
  · obtain ⟨first, last, lowered, extended⟩ := graph.lowered
    exact lowerBody_parts lowered extended isPart
  · intro steps frame callers world ran isHere there
    have state := everyFine steps
    rw [ran] at state
    obtain ⟨-, sameImage, inMain | ⟨address, store, receiver, instanced⟩⟩ := state
    · have sameName : member.name = mainName := by
        rw [← name_of_routine? isRoutine, ← name_of_routine? compiled.isMain, ← isHere, inMain]
      exact absurd sameName (accepted.notMain member (mem_of_declared isMember))
    · have hosts : Hosts linked frame :=
        ⟨by rw [isHere, graph.code], by rw [sameImage]; exact graph.retains⟩
      have partFine := command_stacked_fine (accepted.body_fine isMember) isPart
      have typed := instanced.typed
      rw [← accepted.fieldType? role] at typed
      obtain ⟨datum, value, type⟩ := value?_typed typed partFine
      obtain ⟨more, offset, ranOn, after⟩ := Lowered.leaves lowered graph.linearized reachable
        loaded.compiled.static hosts receiver instanced there value callers
      refine ⟨more, offset, datum.toValue, ?_, after, ?_⟩
      · rw [run_add, ran, ranOn]
      · rw [← type]
        exact admits_toValue datum

theorem run_type_safe_lamp : ∃ log program,
    (check lampClass).diagnostics = [] ∧
    compile "lamp" (check lampClass) .everything = (log, .ok program) ∧
    2 ≤ (Machine.new program 2).frameLimit ∧
    (∀ steps, Safe lampClass ((Machine.new program 2).run steps
      ((Machine.new program 2).start (World.new Int64.ofNat none) (.run [])))) ∧
    ∃ image routine resolution root linked entry next,
      GraphOf .test litMember.body (ClassImage.constants image) routine resolution root linked ∧
      Lowered linked.arena resolution (.field .unknown "on") entry next ∧
      (Reachable linked.arena root entry → Leaves (Machine.new program 2)
        ((Machine.new program 2).start (World.new Int64.ofNat none) (.run [])) routine linked entry
        next .boolean) := by
  obtain ⟨log, program, done⟩ := lamp_compiled
  have fine : (check lampClass).diagnostics = [] := rfl
  have room : 2 ≤ (Machine.new program 2).frameLimit := Nat.le_refl 2
  have isIncluded : litMember ∈ included lampClass .everything .test := List.mem_singleton.mpr rfl
  have isPart : Expression.field .unknown "on" ∈ litMember.body.stacked := List.mem_singleton.mpr rfl
  obtain ⟨safe, members⟩ := run_type_safe fine done room Int64.ofNat []
  obtain ⟨image, routine, resolution, root, linked, -, graph, parts⟩ :=
    members .test litMember isIncluded
  obtain ⟨⟨entry, next, lowered⟩, leaves⟩ := parts _ isPart
  exact ⟨log, program, fine, done, room, safe, image, routine, resolution, root, linked, entry, next,
    graph, lowered, leaves entry next lowered⟩

end Assembly

end Assay
