import Assay.Proofs.Assembly.Calls

/-!
Runs of the main routine, one assembled instruction after the other.
-/

namespace Assay.Assembly

open Bytecode Assay.Graph Machine Syntax Typing

/-- A place in the main routine: what is still to be done, and with what. -/
structure Spot where
  orders : List Order
  locals : Array Value
  stack : List Value
  world : World

def mainFrame (image : ClassImage) (main : Routine) (locals : Array Value) (stack : List Value)
    (offset : Nat) (keepsResult : Bool) : Frame :=
  { image, routine := main, locals, stack, offset, keepsResult }

def Spot.Shows (image : ClassImage) (main : Routine) (spot : Spot) (state : State) : Prop :=
  ∃ offset keepsResult bytes,
    state = .running (mainFrame image main spot.locals spot.stack offset keepsResult) [] spot.world ∧
    CodeAt main.code offset bytes ∧ Arranged image.constants spot.orders bytes

structure Instanced (declaration : ClassDeclaration) (good : World → Prop) (world : World)
    (address : Nat) (store : Store) : Prop where
  fine : good world
  typed : Typed (fieldType? declaration) store
  found : ∃ object, world.object? address = some object ∧ Represents object store

def Fine (declaration : ClassDeclaration) (image : ClassImage) (main : Routine)
    (good : World → Prop) : State → Prop
  | .running frame _ world => good world ∧ frame.image = image ∧
    (frame.routine = main ∨ ∃ address store, frame.locals[0]? = some (.object address) ∧
      Instanced declaration good world address store)
  | .stopped (.returned _) world => good world
  | .stopped _ _ => False

def Passes (machine : Machine) (declaration : ClassDeclaration) (image : ClassImage)
    (main : Routine) (good : World → Prop) (first second : Spot) : Prop :=
  ∀ state, first.Shows image main state →
    ∃ next, LeadsBy machine.run (Fine declaration image main good) state next ∧
      second.Shows image main next

variable {machine : Machine} {declaration : ClassDeclaration} {image : ClassImage}
  {main : Routine} {good : World → Prop} {locals : Array Value} {stack : List Value}
  {world : World} {rest : List Order}

theorem Passes.refl (spot : Spot) : Passes machine declaration image main good spot spot :=
  fun state shows => ⟨state, ⟨0, rfl, fun _ earlier => absurd earlier (Nat.not_lt_zero _)⟩, shows⟩

theorem Passes.trans {first second third : Spot}
    (earlier : Passes machine declaration image main good first second)
    (later : Passes machine declaration image main good second third) :
    Passes machine declaration image main good first third := by
  intro state shows
  obtain ⟨middle, leads, middleShows⟩ := earlier state shows
  obtain ⟨next, leadsOn, nextShows⟩ := later middle middleShows
  exact ⟨next, leads.trans (fun _ _ _ => run_add _ _ _) leadsOn, nextShows⟩

theorem passes_step {order : Order} (opcode : Opcode) {newLocals : Array Value}
    {newStack : List Value} {newWorld : World} (fine : good world)
    (arranged : ∀ bytes, Arranged image.constants (order :: rest) bytes →
      ∃ operands firstBytes restBytes, bytes = firstBytes ++ restBytes ∧
        encode opcode operands = .ok firstBytes ∧ Arranged image.constants rest restBytes ∧
        ∀ offset keepsResult, execute machine.program
          (mainFrame image main locals stack offset keepsResult) world opcode
          ((operands.map Int.toNat).headD 0) =
          .ok (newWorld, .proceed (mainFrame image main newLocals newStack offset keepsResult))) :
    Passes machine declaration image main good ⟨order :: rest, locals, stack, world⟩
      ⟨rest, newLocals, newStack, newWorld⟩ := by
  rintro state ⟨offset, keepsResult, bytes, rfl, here, arrangement⟩
  obtain ⟨operands, firstBytes, restBytes, rfl, encoded, later, executed⟩ :=
    arranged bytes arrangement
  refine ⟨_, LeadsBy.once (run_one _) ⟨fine, rfl, .inl rfl⟩, offset + firstBytes.length, keepsResult,
    restBytes, ?_, here.right, later⟩
  rw [step_running, advance_encoded encoded here.left]
  change machine.absorb _ _ _ (execute machine.program
    (mainFrame image main locals stack (offset + firstBytes.length) keepsResult) _ _ _) = _
  rw [executed]
  rfl

theorem passes_plain {opcode : Opcode} {operands : List Int} {newLocals : Array Value}
    {newStack : List Value} {newWorld : World} (fine : good world)
    (executed : ∀ offset keepsResult, execute machine.program
      (mainFrame image main locals stack offset keepsResult) world opcode
      ((operands.map Int.toNat).headD 0) =
      .ok (newWorld, .proceed (mainFrame image main newLocals newStack offset keepsResult))) :
    Passes machine declaration image main good ⟨.plain opcode operands :: rest, locals, stack, world⟩
      ⟨rest, newLocals, newStack, newWorld⟩ := by
  refine passes_step opcode fine fun bytes arranged => ?_
  cases arranged with
  | plain encoded later => exact ⟨operands, _, _, rfl, encoded, later, executed⟩

theorem passes_pooled {opcode : Opcode} {constant : Constant} {newLocals : Array Value}
    {newStack : List Value} {newWorld : World} (fine : good world)
    (executed : ∀ index entry, image.constants[index]? = some entry → StandsFor entry constant →
      ∀ offset keepsResult, execute machine.program
        (mainFrame image main locals stack offset keepsResult) world opcode index =
        .ok (newWorld, .proceed (mainFrame image main newLocals newStack offset keepsResult))) :
    Passes machine declaration image main good ⟨.pooled opcode constant :: rest, locals, stack, world⟩
      ⟨rest, newLocals, newStack, newWorld⟩ := by
  refine passes_step opcode fine fun bytes arranged => ?_
  cases arranged with
  | pooled encoded found stands later =>
      exact ⟨_, _, _, rfl, encoded, later, executed _ _ found stands⟩

theorem nanoTime_passes (fine : good world) :
    Passes machine declaration image main good ⟨.plain .nanoTime [] :: rest, locals, stack, world⟩
      ⟨rest, locals, .int (world.clock world.readings) :: stack,
        { world with readings := world.readings + 1 }⟩ :=
  passes_plain fine fun _ _ => rfl

theorem store_passes (fine : good world) {slot : Int} (inside : slot.toNat < locals.size)
    (value : Value) :
    Passes machine declaration image main good
      ⟨.plain .store [slot] :: rest, locals, value :: stack, world⟩
      ⟨rest, locals.setIfInBounds slot.toNat value, stack, world⟩ := by
  refine passes_plain fine fun offset keepsResult => ?_
  simp only [execute, mainFrame, List.map_cons, List.headD_cons, inside, if_true]
  rfl

theorem load_passes (fine : good world) {slot : Int} {value : Value}
    (found : locals[slot.toNat]? = some value) :
    Passes machine declaration image main good ⟨.plain .load [slot] :: rest, locals, stack, world⟩
      ⟨rest, locals, value :: stack, world⟩ := by
  refine passes_plain fine fun offset keepsResult => ?_
  simp only [execute, mainFrame, List.map_cons, List.headD_cons, found]
  rfl

theorem sub_passes (fine : good world) (left right : Int64) :
    Passes machine declaration image main good
      ⟨.plain .sub [] :: rest, locals, .int right :: .int left :: stack, world⟩
      ⟨rest, locals, .int (left - right) :: stack, world⟩ :=
  passes_plain fine fun _ _ => rfl

theorem add_passes (fine : good world) (left right : Int64) :
    Passes machine declaration image main good
      ⟨.plain .add [] :: rest, locals, .int right :: .int left :: stack, world⟩
      ⟨rest, locals, .int (left + right) :: stack, world⟩ :=
  passes_plain fine fun _ _ => rfl

theorem dup_passes (fine : good world) (value : Value) :
    Passes machine declaration image main good ⟨.plain .dup [] :: rest, locals, value :: stack, world⟩
      ⟨rest, locals, value :: value :: stack, world⟩ :=
  passes_plain fine fun _ _ => rfl

theorem intToFloat_passes (fine : good world) (value : Int64) :
    Passes machine declaration image main good
      ⟨.plain .intToFloat [] :: rest, locals, .int value :: stack, world⟩
      ⟨rest, locals, .float value.toFloat :: stack, world⟩ :=
  passes_plain fine fun _ _ => rfl

theorem floatDiv_passes (fine : good world) (value : Float) :
    Passes machine declaration image main good
      ⟨.plain .floatDiv [] :: rest, locals, .float nanosPerMilli :: .float value :: stack, world⟩
      ⟨rest, locals, .float (value / nanosPerMilli) :: stack, world⟩ := by
  have nonzero : (nanosPerMilli == 0) = false := by decide
  refine passes_plain fine fun offset keepsResult => ?_
  simp only [execute, mainFrame, Frame.popFloat, Frame.pop, bind, Except.bind, nonzero]
  rfl

theorem print_passes (fine : good world) {value : Value} {text : String} {written : World}
    (printed : value.printed? = some text) (accepted : world.write? text = some written) :
    Passes machine declaration image main good ⟨.plain .print [] :: rest, locals, value :: stack, world⟩
      ⟨rest, locals, stack, written⟩ := by
  refine passes_plain fine fun offset keepsResult => ?_
  simp only [execute, printValue, mainFrame, Frame.pop, bind, Except.bind, printed, accepted]
  rfl

theorem push_passes (fine : good world) {constant : Constant} {value : Value}
    (noMethod : constant.method = none)
    (pushable : Frame.pushable constant = .ok value) :
    Passes machine declaration image main good
      ⟨.pooled .pushConstant constant :: rest, locals, stack, world⟩
      ⟨rest, locals, value :: stack, world⟩ := by
  refine passes_pooled fine fun index entry found stands offset keepsResult => ?_
  obtain rfl := stands.eq_of_no_method noMethod
  simp only [execute, Frame.constant, mainFrame, found, bind, Except.bind, pushable]
  rfl

theorem output_passes (fine : good world) {text : String}
    (accepted : world.accepts text = true) :
    Passes machine declaration image main good
      ⟨.pooled .invokeVirtual (.ofMethod outputRef) :: rest, locals, .text text :: stack, world⟩
      ⟨rest, locals, stack, world.after text 0⟩ := by
  refine passes_pooled fine fun index entry found stands offset keepsResult => ?_
  obtain ⟨method, rfl, sameText⟩ := stands.method_of_method
  have isOutput : isOutput method = true := by
    rw [isOutput_of_text sameText]
    rfl
  have noArguments : method.args = 0 := (MethodRef.text_determines sameText).1
  have known : (mainFrame image main locals (.text text :: stack) offset keepsResult).methodConstant
      index = .ok method := by
    simp only [Frame.methodConstant, Frame.constant, mainFrame, found, bind, Except.bind]
    rfl
  have popped : popArguments (mainFrame image main locals (.text text :: stack) offset keepsResult)
      method = .ok (some ([], mainFrame image main locals (.text text :: stack) offset keepsResult)) := by
    simp only [popArguments, noArguments]
    rfl
  have dispatched : dispatch machine.program (mainFrame image main locals stack offset keepsResult)
      world method [] (.text text) =
      .ok (world.after text 0, .proceed (mainFrame image main locals stack offset keepsResult)) := by
    simp only [dispatch, isOutput, if_true, World.write?_of_accepts accepted]
  simp only [execute, invokeVirtual, known, bind, Except.bind, popped]
  exact dispatched

theorem printOrders_pass (fine : good world) {text : String}
    (accepted : world.accepts text = true) :
    Passes machine declaration image main good ⟨printOrders text ++ rest, locals, stack, world⟩
      ⟨rest, locals, stack, world.after text 0⟩ :=
  (push_passes fine rfl rfl).trans (output_passes fine accepted)

def elapsedText (start finish : Int64) : String :=
  " [ " ++ Decimal.Format.plain.float ((finish - start).toFloat / nanosPerMilli) ++ " ms ]\n"

def Steady (good : World → Prop) : Prop :=
  ∀ world text readings, good world → good (world.after text readings)

theorem elapsedOrders_pass (steady : Steady good) (fine : good world) {slot : Int} {start : Int64}
    (found : locals[slot.toNat]? = some (.int start))
    (accepted : world.accepts (elapsedText start (world.clock world.readings)) = true) :
    Passes machine declaration image main good ⟨elapsedOrders slot ++ rest, locals, stack, world⟩
      ⟨rest, locals, stack,
        world.after (elapsedText start (world.clock world.readings)) 1⟩ := by
  obtain ⟨before, closing⟩ := World.accepts_append accepted 1
  obtain ⟨opening, number⟩ := World.accepts_append before 1
  have opened := steady _ " [ " 0 fine
  have read := steady _ " [ " 1 fine
  have counted : ({ world.after " [ " 0 with readings := (world.after " [ " 0).readings + 1 } : World) =
      world.after " [ " 1 := rfl
  have written := World.write?_of_accepts number
  rw [World.after_after] at written
  have numbered := steady _ (" [ " ++ Decimal.Format.plain.float
    ((world.clock world.readings - start).toFloat / nanosPerMilli)) 1 fine
  simp only [elapsedOrders, List.append_assoc, List.cons_append, List.nil_append]
  refine (printOrders_pass fine opening).trans ?_
  refine (nanoTime_passes opened).trans ?_
  rw [counted]
  refine (load_passes read found).trans ?_
  refine (sub_passes read _ _).trans ?_
  refine (intToFloat_passes read _).trans ?_
  refine (push_passes read rfl rfl).trans ?_
  refine (floatDiv_passes read _).trans ?_
  refine (print_passes read rfl written).trans ?_
  refine (printOrders_pass numbered closing).trans ?_
  rw [World.after_after]
  exact Passes.refl _

theorem new_passes (fine : good world) {owner : String} {target : ClassImage}
    (found : machine.program.class? owner = some target) :
    Passes machine declaration image main good
      ⟨.pooled .new (.ofString owner) :: rest, locals, stack, world⟩
      ⟨rest, locals, .object world.heap.size :: stack, (world.allocate (Object.new target)).1⟩ := by
  refine passes_pooled fine fun index entry present stands offset keepsResult => ?_
  obtain rfl := stands.eq_of_no_method rfl
  simp only [execute, newObject, Frame.stringConstant, Frame.constant, mainFrame, present, bind,
    Except.bind, Constant.ofString, if_true, pure, Except.pure, found]
  rfl

structure Stable (declaration : ClassDeclaration) (target : ClassImage) (good : World → Prop) :
    Prop where
  steady : Steady good
  allocated : ∀ world, good world → good (world.allocate (Object.new target)).1
  showing : ∀ world address store, good world → Typed (fieldType? declaration) store →
    good (world.showing address store)

/-- The machine has a compiled class as its program and room for two frames. -/
structure Loaded (machine : Machine) (declaration : ClassDeclaration) (selection : Selection)
    (target image : ClassImage) (main : Routine) : Prop where
  accepted : Accepted declaration
  compiled : Compiled declaration selection machine.program target image main
  room : 2 ≤ machine.frameLimit

theorem loaded_of_compile {runId : String} {selection : Selection} {program : Program}
    {log : List Logging.Event} (fine : (check declaration).diagnostics = [])
    (done : compile runId (check declaration) selection = (log, .ok program)) {limit : Int}
    (room : 2 ≤ (Machine.new program limit).frameLimit) :
    ∃ target image main, Loaded (Machine.new program limit) declaration selection target image main := by
  obtain ⟨target, image, main, compiled⟩ := compile_ok fine done
  exact ⟨target, image, main, accepted_of_no_errors fine, compiled, room⟩

theorem Loaded.runs_typed {selection : Selection} {target : ClassImage} {role : Role}
    {member : MemberDeclaration} (loaded : Loaded machine declaration selection target image main)
    (isIncluded : member ∈ included declaration selection role) {store final : Store}
    {ending : Ending} (typed : Typed (fieldType? declaration) store)
    (runs : Runs member.body store ending final) : Typed (fieldType? declaration) final :=
  loaded.accepted.runs_typed (mem_included.mp isIncluded).1 typed runs

section Call

variable {selection : Selection} {target : ClassImage} {role : Role} {member : MemberDeclaration}
  {address : Nat} {store : Store}

theorem Stable.announced (stable : Stable declaration target good) {message : Option String}
    {after : World} (fine : good world) (announced : world.announce message = some after) :
    good after := by
  cases message with
  | none =>
      obtain rfl := Option.some.inj announced
      exact fine
  | some text =>
      simp only [World.announce, World.write?] at announced
      split at announced
      · obtain rfl := Option.some.inj announced
        exact stable.steady world text 0 fine
      · simp at announced

theorem fine_move (state : State) (depth offset : Nat) :
    Fine declaration image main good (state.move depth offset) ↔
      Fine declaration image main good state := by
  cases state with
  | running frame callers world =>
      simp only [State.move]
      split
      · exact Iff.rfl
      · exact Iff.rfl
  | stopped outcome world => exact Iff.rfl

def resultOf (role : Role) (ending : Ending) : List Value :=
  match role with
  | .test => [.int ending.status]
  | .fixture => []

theorem member_method (loaded : Loaded machine declaration selection target image main)
    {method : MethodRef} (present : .ofMethod method ∈ image.constants)
    (sameText : method.text = (memberRef image.name (signatureOf declaration role member)).text) :
    method.owner = image.name ∧ method.name = member.name ∧ method.args = 1 ∧
      (method.returns = .void ↔ role = .fixture) ∧ kindOf role.resultKind = .ok method.returns := by
  obtain ⟨oneArgument, sameReturns, sameName⟩ := MethodRef.text_determines sameText
  have owner : method.owner = image.name := by
    rcases loaded.compiled.methods method present with none | owner
    · rw [oneArgument] at none
      simp [memberRef] at none
    · exact owner
  have name : method.name = member.name := by
    rw [owner] at sameName
    exact (String.append_right_inj _).mp sameName
  refine ⟨owner, name, oneArgument, ?_, ?_⟩
  · rw [sameReturns]
    cases role with
    | fixture => simp [memberRef, signatureOf]
    | test => simp [memberRef, signatureOf]
  · rw [sameReturns]
    cases role <;> rfl

theorem call_enters (loaded : Loaded machine declaration selection target image main)
    (isIncluded : member ∈ included declaration selection role) {state : State}
    (shows : Spot.Shows image main
      ⟨callOrder image.name (signatureOf declaration role member) :: rest, locals,
        .object address :: stack, world⟩ state) :
    ∃ routine offset bytes, image.routine? member.name = some routine ∧
      RoutineFor role member.body image.constants routine ∧
      machine.step state = .running (Frame.enter image routine [.object address])
        [mainFrame image main locals stack offset (decide (role = .test))] world ∧
      CodeAt main.code offset bytes ∧ Arranged image.constants rest bytes := by
  obtain ⟨isMember, isSelected⟩ := mem_included.mp isIncluded
  obtain ⟨routine, isRoutine, routineFor⟩ := loaded.compiled.members role member isMember isSelected
  obtain ⟨start, keepsResult, bytes, rfl, here, arranged⟩ := shows
  cases arranged with
  | @pooled _ _ entry index _ firstBytes restBytes encoded found stands later =>
      refine ⟨routine, start + firstBytes.length, restBytes, isRoutine, routineFor, ?_, here.right,
        later⟩
      obtain ⟨method, rfl, sameText⟩ := stands.method_of_method
      obtain ⟨owner, name, oneArgument, isVoid, kind⟩ :=
        member_method loaded (Array.mem_of_getElem? found) sameText
      generalize offset : start + firstBytes.length = next
      have known : (mainFrame image main locals (.object address :: stack) next
          keepsResult).methodConstant index = .ok method := by
        simp only [Frame.methodConstant, Frame.constant, mainFrame, found, bind, Except.bind]
        rfl
      have looked : machine.program.lookup method.owner method.name = .ok (image, routine) := by
        rw [owner, name]
        exact loaded.compiled.lookup isRoutine
      have returns : routine.returns = method.returns := by
        have same := routineFor.returns
        rw [kind] at same
        exact (Except.ok.inj same).symm
      have popped : popArguments (mainFrame image main locals (.object address :: stack) next
          keepsResult) method =
          .ok (some ([.object address], mainFrame image main locals stack next keepsResult)) := by
        simp [popArguments, oneArgument, Frame.popMany, mainFrame]
      have keeps : decide (method.returns ≠ .void) = decide (role = .test) := by
        have test : role = .test ↔ ¬role = .fixture := by cases role <;> simp
        simp only [ne_eq, isVoid, test]
      have executed : execute machine.program
          (mainFrame image main locals (.object address :: stack) next keepsResult) world
          .invokeStatic index =
          .ok (world, .call (mainFrame image main locals stack next (decide (role = .test))) image
            routine [.object address]) := by
        rw [← keeps]
        simp only [execute, invokeStatic, known, bind, Except.bind, looked, routineFor.static,
          returns, popped]
        simp [callEffect, pure, Except.pure, mainFrame]
      rw [step_running, advance_encoded encoded here.left]
      change machine.absorb _ _ _ (execute machine.program (mainFrame image main locals
        (.object address :: stack) (start + firstBytes.length) keepsResult) world .invokeStatic
          index) = _
      rw [offset, executed]
      exact enterCall_ok routineFor.params loaded.room routineFor.hasPlace

theorem Instanced.announced (instanced : Instanced declaration good world address store)
    (stable : Stable declaration target good) {later : Store}
    (typed : Typed (fieldType? declaration) later) {message : Option String} {after : World}
    (announced : (world.showing address later).announce message = some after) :
    Instanced declaration good after address later := by
  obtain ⟨object, found, represents⟩ := instanced.found
  refine ⟨?_, typed, object.holding later, ?_, ?_⟩
  · exact stable.announced (stable.showing world address later instanced.fine typed) announced
  · rw [World.object?, World.announce_heap announced, ← World.object?, World.object?_showing, found]
    rfl
  · exact represents.holding (instanced.typed.same_fields typed)

theorem Instanced.throughout (instanced : Instanced declaration good world address store)
    (stable : Stable declaration target good) (routine : Routine) (caller : Frame) :
    Throughout declaration image routine [caller] world address
      (fun state => Alive 1 state ∧ Fine declaration image main good state) where
  alive := fun _ both => both.1
  calm := by
    intro later message after stack typed announced
    have stays := instanced.announced stable typed announced
    refine ⟨Nat.le_refl 1, stays.fine, rfl, .inr ⟨address, later, ?_, stays⟩⟩
    exact enter_receiver image routine (.object address)

theorem moved_fine {state : State}
    (moved : Moved 1 (fun state => Alive 1 state ∧ Fine declaration image main good state) state) :
    Fine declaration image main good state ∧ Alive 1 state := by
  obtain ⟨earlier, offset, ⟨alive, fine⟩, rfl⟩ := moved
  refine ⟨(fine_move earlier 1 offset).mpr fine, ?_⟩
  cases earlier with
  | stopped outcome world => exact absurd alive id
  | running frame callers world =>
      simp only [State.move]
      split
      · exact alive
      · simpa only [Alive, moveFrame_length] using alive

theorem call_returns (loaded : Loaded machine declaration selection target image main)
    (stable : Stable declaration target good)
    (isIncluded : member ∈ included declaration selection role)
    (instanced : Instanced declaration good world address store)
    {ending : Ending} {final : Store} (runs : Runs member.body store ending final) {after : World}
    (announced : (world.showing address final).announce (ending.printed? role) = some after)
    {state : State} (shows : Spot.Shows image main
      ⟨callOrder image.name (signatureOf declaration role member) :: rest, locals,
        .object address :: stack, world⟩ state) :
    ∃ routine offset bytes, image.routine? member.name = some routine ∧
      let caller := mainFrame image main locals stack offset (decide (role = .test))
      machine.step state = .running (Frame.enter image routine [.object address]) [caller] world ∧
      LeadsBy machine.run (fun state => Fine declaration image main good state ∧ Alive 1 state)
        (.running (Frame.enter image routine [.object address]) [caller] world)
        (deliver (ending.result role) after [caller]) ∧
      CodeAt main.code offset bytes ∧ Arranged image.constants rest bytes := by
  obtain ⟨routine, offset, bytes, isRoutine, routineFor, entered, here, arranged⟩ :=
    call_enters loaded isIncluded shows
  have calling : Calling declaration machine role member image routine world address store :=
    ⟨loaded.accepted, (mem_included.mp isIncluded).1, loaded.compiled.static, routineFor,
      instanced.typed, instanced.found⟩
  obtain ⟨steps, ran, before⟩ :=
    calling.leads (instanced.throughout stable routine _) runs announced
  exact ⟨routine, offset, bytes, isRoutine, entered,
    ⟨steps, ran, fun earlier less => moved_fine (before earlier less)⟩, here, arranged⟩

/-- A member whose body ends is called, and the main routine goes on with its result. -/
theorem call_passes (loaded : Loaded machine declaration selection target image main)
    (stable : Stable declaration target good)
    (isIncluded : member ∈ included declaration selection role)
    (instanced : Instanced declaration good world address store)
    {ending : Ending} {final : Store} (runs : Runs member.body store ending final) {after : World}
    (announced : (world.showing address final).announce (ending.printed? role) = some after) :
    Passes machine declaration image main good
      ⟨callOrder image.name (signatureOf declaration role member) :: rest, locals,
        .object address :: stack, world⟩
      ⟨rest, locals, resultOf role ending ++ stack, after⟩ := by
  intro state shows
  obtain ⟨routine, offset, bytes, -, entered, ⟨steps, ran, before⟩, here, arranged⟩ :=
    call_returns loaded stable isIncluded instanced runs announced shows
  obtain ⟨start, keepsResult, _, rfl, -, -⟩ := shows
  have first : LeadsBy machine.run (Fine declaration image main good)
      (.running (mainFrame image main locals (.object address :: stack) start keepsResult) [] world)
      (.running (Frame.enter image routine [.object address])
        [mainFrame image main locals stack offset (decide (role = .test))] world) :=
    LeadsBy.once ((run_one _).trans entered) ⟨instanced.fine, rfl, .inl rfl⟩
  have second : LeadsBy machine.run (Fine declaration image main good)
      (.running (Frame.enter image routine [.object address])
        [mainFrame image main locals stack offset (decide (role = .test))] world)
      (deliver (ending.result role) after
        [mainFrame image main locals stack offset (decide (role = .test))]) :=
    ⟨steps, ran, fun earlier less => (before earlier less).1⟩
  refine ⟨_, first.trans (fun _ _ _ => run_add _ _ _) second, offset, decide (role = .test), bytes, ?_,
    here, arranged⟩
  cases role <;> rfl

/-- A member whose body does not end is called and never comes back. -/
theorem call_lasts (loaded : Loaded machine declaration selection target image main)
    (stable : Stable declaration target good)
    (isIncluded : member ∈ included declaration selection role)
    (instanced : Instanced declaration good world address store)
    (endless : ∀ ending final, ¬Runs member.body store ending final) {state : State}
    (shows : Spot.Shows image main
      ⟨callOrder image.name (signatureOf declaration role member) :: rest, locals,
        .object address :: stack, world⟩ state) (steps : Nat) :
    Fine declaration image main good (machine.run steps state) ∧
      Alive 0 (machine.run steps state) := by
  obtain ⟨routine, offset, bytes, -, routineFor, entered, here, arranged⟩ :=
    call_enters loaded isIncluded shows
  obtain ⟨start, keepsResult, _, rfl, -, -⟩ := shows
  have calling : Calling declaration machine role member image routine world address store :=
    ⟨loaded.accepted, (mem_included.mp isIncluded).1, loaded.compiled.static, routineFor,
      instanced.typed, instanced.found⟩
  cases steps with
  | zero => exact ⟨⟨instanced.fine, rfl, .inl rfl⟩, Nat.zero_le _⟩
  | succ steps =>
      rw [run_succ, entered]
      obtain ⟨fine, alive⟩ :=
        moved_fine (calling.lasts (instanced.throughout stable routine _) endless steps)
      exact ⟨fine, alive.weaken (Nat.zero_le 1)⟩

end Call

end Assay.Assembly
