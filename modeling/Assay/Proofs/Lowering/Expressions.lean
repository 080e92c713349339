import Assay.Lowering.Expression
import Assay.Proofs.Graph.Progress
import Assay.Proofs.Machine.Instances
import Assay.Proofs.Success
import Assay.Proofs.Typing.Soundness

/-!
The graph of an expression computes its value: it pushes the value and goes on, or goes to one of two
blocks by the value.
-/

namespace Assay.Lowering

open Assay.Graph Machine Syntax Typing

def Extending {α : Type} (lowering : Lower α) : Prop :=
  ∀ arena : Arena, arena.Extends (lowering.run arena).2 ∧
    (arena.Argumentless → (lowering.run arena).2.Argumentless)

theorem extending_pure {α : Type} (value : α) : Extending (pure value : Lower α) :=
  fun arena => ⟨Arena.Extends.refl arena, fun argumentless => argumentless⟩

theorem extending_throw {α : Type} (problem : LoweringError) :
    Extending (throw problem : Lower α) :=
  fun arena => ⟨Arena.Extends.refl arena, fun argumentless => argumentless⟩

theorem extending_bind {α β : Type} {first : Lower α} {second : α → Lower β}
    (extends₁ : Extending first) (extends₂ : ∀ value, Extending (second value)) :
    Extending (first >>= second) := by
  intro arena
  have unfolded : (first >>= second).run arena =
      (ExceptT.bindCont second (first.run arena).1 : StateM Arena (Except LoweringError β))
        (first.run arena).2 := rfl
  have before := extends₁ arena
  rw [unfolded]
  rcases ran : first.run arena with ⟨problem | value, middle⟩
  · rw [ran] at before
    exact before
  · rw [ran] at before
    have after := extends₂ value middle
    exact ⟨before.1.trans after.1, fun argumentless => after.2 (before.2 argumentless)⟩

theorem extending_newBlock {code : List Instruction} (noArguments : NoArguments code) :
    Extending (newBlock code) :=
  fun arena => ⟨arena.extends_newBlock code, fun argumentless => argumentless.allocate noArguments _⟩

theorem extending_branch (cond : Cond) (yes no : BlockIndex) : Extending (branch cond yes no) :=
  fun arena => ⟨arena.extends_branch cond yes no, fun argumentless => argumentless.branch cond yes no⟩

theorem extending_prepend {code : List Instruction} (next : BlockIndex)
    (noArguments : NoArguments code) : Extending (prepend code next) :=
  fun arena =>
    ⟨arena.extends_prepend code next, fun argumentless => argumentless.prepend noArguments next⟩

theorem link_run (id next : BlockIndex) (arena : Arena) :
    (link id next).run arena =
      match arena.link id next with
      | .ok linked => (.ok (), linked)
      | .error cause => (.error (.arena cause), arena) := rfl

theorem extending_link (id next : BlockIndex) : Extending (link id next) := by
  intro arena
  rw [link_run]
  split
  · rename_i linked done
    exact ⟨(Arena.link_ok done).1, fun argumentless => argumentless.link done⟩
  · exact ⟨Arena.Extends.refl arena, fun argumentless => argumentless⟩

theorem extending_consumer (destination : Destination) : Extending destination.consumer := by
  cases destination with
  | value next => exact extending_pure _
  | test yes no => exact extending_branch _ _ _

theorem extending_branches (destination : Destination) : Extending destination.branches := by
  cases destination with
  | value next =>
      exact extending_bind (extending_prepend _ rfl) fun yes =>
        extending_bind (extending_prepend _ rfl) fun no => extending_pure _
  | test yes no => exact extending_pure _

theorem extending_lowerExpression (resolution : Resolution) (expression : Expression)
    (destination : Destination) : Extending (lowerExpression resolution expression destination) := by
  induction expression generalizing destination with
  | int position value =>
      rw [lowerExpression]
      exact extending_bind (extending_consumer _) fun next => extending_prepend _ rfl
  | boolean position value =>
      cases destination with
      | value next => rw [lowerExpression]; exact extending_prepend _ rfl
      | test yes no => rw [lowerExpression]; exact extending_pure _
  | field position name =>
      rw [lowerExpression]
      refine extending_bind (extending_consumer _) fun next => ?_
      split
      · exact extending_prepend _ rfl
      · exact extending_throw _
  | binary position operator left right leftIh rightIh =>
      rw [lowerExpression]
      exact extending_bind (extending_consumer _) fun next =>
        extending_bind (extending_prepend _ rfl) fun operation =>
        extending_bind (rightIh _) fun second => leftIh _
  | comparison position operator left right leftIh rightIh =>
      rw [lowerExpression]
      exact extending_bind (extending_branches _) fun targets =>
        extending_bind (extending_branch _ _ _) fun decision =>
        extending_bind (rightIh _) fun second => leftIh _
  | not position operand ih =>
      rw [lowerExpression]
      exact extending_bind (extending_branches _) fun targets => ih _
  | and position left right leftIh rightIh =>
      rw [lowerExpression]
      exact extending_bind (extending_branches _) fun targets =>
        extending_bind (rightIh _) fun second => leftIh _
  | or position left right leftIh rightIh =>
      rw [lowerExpression]
      exact extending_bind (extending_branches _) fun targets =>
        extending_bind (rightIh _) fun second => leftIh _

theorem Extending.ok {α : Type} {lowering : Lower α} {start finish : Arena}
    {result : Except LoweringError α} (extending : Extending lowering)
    (done : lowering.run start = (result, finish)) : start.Extends finish := by
  have extended := (extending start).1
  rw [done] at extended
  exact extended

theorem Extending.argumentless {α : Type} {lowering : Lower α} {start finish : Arena}
    {result : Except LoweringError α} (extending : Extending lowering)
    (done : lowering.run start = (result, finish)) (argumentless : start.Argumentless) :
    finish.Argumentless := by
  have kept := (extending start).2 argumentless
  rw [done] at kept
  exact kept

theorem prepend_extends {code : List Instruction} {next : BlockIndex} {start finish : Arena}
    {result : Except LoweringError BlockIndex} (done : (prepend code next).run start = (result, finish)) :
    start.Extends finish := by
  have same : (Except.ok (start.prepend code next).2, (start.prepend code next).1) =
      (result, finish) := done
  rw [← (Prod.mk.inj same).2]
  exact start.extends_prepend code next

theorem prepend_ok {code : List Instruction} {next id : BlockIndex} {start finish : Arena}
    (done : (prepend code next).run start = (.ok id, finish)) (some : code ≠ []) :
    finish.Holds id code (.jump next) := by
  have same : (Except.ok (start.prepend code next).2, (start.prepend code next).1) =
      (Except.ok id, finish) := done
  simp only [Prod.mk.injEq, Except.ok.injEq] at same
  rw [← same.1, ← same.2]
  exact Arena.holds_prepend start some next

theorem branch_ok {cond : Cond} {yes no id : BlockIndex} {start finish : Arena}
    (done : (branch cond yes no).run start = (.ok id, finish)) :
    finish.Holds id [] (.branch cond yes no) := by
  have same : (Except.ok (start.branch cond yes no).2, (start.branch cond yes no).1) =
      (Except.ok id, finish) := done
  simp only [Prod.mk.injEq, Except.ok.injEq] at same
  rw [← same.1, ← same.2]
  exact Arena.holds_branch start cond yes no

theorem prepend_new {code : List Instruction} {next id : BlockIndex} {bound : Nat} {start finish : Arena}
    (done : (prepend code next).run start = (.ok id, finish)) (some : code ≠ [])
    (old : bound ≤ start.size) : bound ≤ id := by
  have same : (Except.ok (start.prepend code next).2, (start.prepend code next).1) =
      (Except.ok id, finish) := done
  simp only [Prod.mk.injEq, Except.ok.injEq] at same
  have present : code.isEmpty = false := by simpa using some
  rw [← same.1, Arena.prepend, present]
  exact old

theorem branch_new {cond : Cond} {yes no id : BlockIndex} {bound : Nat} {start finish : Arena}
    (done : (branch cond yes no).run start = (.ok id, finish)) (old : bound ≤ start.size) :
    bound ≤ id := by
  have same : (Except.ok (start.branch cond yes no).2, (start.branch cond yes no).1) =
      (Except.ok id, finish) := done
  simp only [Prod.mk.injEq, Except.ok.injEq] at same
  rw [← same.1]
  exact old

/-- The surroundings of a frame that works on an instance. -/
structure Scene where
  machine : Machine
  arena : Arena
  frame : Frame
  callers : List Frame
  base : World
  address : Nat
  types : String → Option Ty

namespace Scene

/-- The receiver of the frame is an instance with the declared fields. -/
structure Ready (scene : Scene) : Prop where
  receiver : scene.frame.locals[0]? = some (.object scene.address)
  instanced : ∃ object, scene.base.object? scene.address = some object ∧
    ∀ name, (scene.types name).isSome → (object.get? name).isSome

def state (scene : Scene) (store : Store) (stack : List Value) : State :=
  .running { scene.frame with stack } scene.callers (scene.base.showing scene.address store)

def enter (scene : Scene) (id : BlockIndex) (store : Store) (stack : List Value) : Walk :=
  .enter scene.arena id (scene.state store stack)

def Calm (scene : Scene) (property : State → Prop) : Prop :=
  ∀ store stack, Typed scene.types store → property (scene.state store stack)

def Leads (scene : Scene) (property : State → Prop) : Walk → Walk → Prop :=
  Graph.Leads scene.machine scene.arena scene.callers.length property

def Lasts (scene : Scene) (property : State → Prop) : Nat → Walk → Prop :=
  Graph.Lasts scene.machine scene.arena scene.callers.length property

end Scene

variable {scene : Scene} {property : State → Prop} {store : Store}

theorem Scene.ready_of_represents {object : Object}
    (receiver : scene.frame.locals[0]? = some (.object scene.address))
    (found : scene.base.object? scene.address = some object) (represents : Represents object store)
    (typed : Typed scene.types store) : scene.Ready := by
  refine ⟨receiver, object, found, fun name declared => ?_⟩
  have stored := typed name
  obtain ⟨type, known⟩ := Option.isSome_iff_exists.mp declared
  rw [known, Option.map_eq_some_iff] at stored
  obtain ⟨datum, present, -⟩ := stored
  rw [represents.values, present]
  rfl

theorem Scene.Ready.field? (ready : scene.Ready) (typed : Typed scene.types store) {name : String}
    (declared : (scene.types name).isSome) :
    ∃ object datum, (scene.base.showing scene.address store).object? scene.address = some object ∧
      store name = some datum ∧ object.get? name = some datum.toValue := by
  obtain ⟨object, found, covers⟩ := ready.instanced
  have stored := typed name
  obtain ⟨type, known⟩ := Option.isSome_iff_exists.mp declared
  rw [known, Option.map_eq_some_iff] at stored
  obtain ⟨datum, present, -⟩ := stored
  obtain ⟨old, has⟩ := Option.isSome_iff_exists.mp (covers name declared)
  refine ⟨object.holding store, datum, ?_, present, ?_⟩
  · rw [World.object?_showing, found]
    rfl
  · rw [Object.get?_holding, has, present]
    rfl

theorem arithmetic_apply (operator : BinaryOperator) (left right : Int64) :
    operator.arithmetic.apply left right = operator.apply left right := by
  cases operator <;> rfl

theorem cond_decide (operator : ComparisonOperator) {left right : Datum} {result : Bool}
    (compared : operator.compare? left right = some result) (frame : Frame) (stack : List Value) :
    operator.cond.decide { frame with stack := right.toValue :: left.toValue :: stack } =
      .ok (result, { frame with stack }) := by
  cases left with
  | int left =>
      cases right with
      | int right =>
          simp only [ComparisonOperator.compare?, Option.some.injEq] at compared
          subst compared
          cases operator <;> rfl
      | boolean right => cases operator <;> simp [ComparisonOperator.compare?] at compared
      | float right => cases operator <;> simp [ComparisonOperator.compare?] at compared
  | boolean left =>
      cases right with
      | int right => cases operator <;> simp [ComparisonOperator.compare?] at compared
      | boolean right =>
          cases operator with
          | equal =>
              simp only [ComparisonOperator.compare?, Option.some.injEq] at compared
              subst compared
              cases left <;> cases right <;> rfl
          | notEqual =>
              simp only [ComparisonOperator.compare?, Option.some.injEq] at compared
              subst compared
              cases left <;> cases right <;> rfl
          | _ => simp [ComparisonOperator.compare?] at compared
      | float right => cases operator <;> simp [ComparisonOperator.compare?] at compared
  | float left => cases operator <;> simp [ComparisonOperator.compare?] at compared

def Scene.Settles (scene : Scene) (property : State → Prop) (store : Store) (stack : List Value)
    (datum : Datum) (walk : Walk) : Destination → Prop
  | .value next => scene.Leads property walk (scene.enter next store (datum.toValue :: stack))
  | .test yes no => ∀ chosen, datum = .boolean chosen →
    scene.Leads property walk (scene.enter (if chosen then yes else no) store stack)

def Scene.Moves (scene : Scene) (property : State → Prop) (bound : Nat) (store : Store)
    (id : BlockIndex) (stack : List Value) (next : BlockIndex) (final : List Value) : Prop :=
  Crosses scene.machine scene.arena scene.callers.length property bound id
    (scene.state store stack) next (scene.state store final)

def Scene.Lands (scene : Scene) (property : State → Prop) (bound : Nat) (store : Store)
    (stack : List Value) (datum : Datum) (id : BlockIndex) (current : List Value) : Destination → Prop
  | .value next => scene.Moves property bound store id current next (datum.toValue :: stack)
  | .test yes no => ∀ chosen, datum = .boolean chosen →
    scene.Moves property bound store id current (if chosen then yes else no) stack

section Landing

variable {bound : Nat} {id next : BlockIndex} {start finish : Arena} {destination : Destination}

theorem Scene.Lands.settles {stack current : List Value} {datum : Datum}
    (lands : scene.Lands property bound store stack datum id current destination) :
    scene.Settles property store stack datum (scene.enter id store current) destination := by
  cases destination with
  | value next => exact Crosses.leads lands
  | test yes no => exact fun chosen isChosen => (lands chosen isChosen).leads

theorem Scene.Lands.after {stack current earlier : List Value} {datum : Datum} {before : BlockIndex}
    (lands : scene.Lands property bound store stack datum id current destination)
    (moves : scene.Moves property bound store before earlier id current) :
    scene.Lands property bound store stack datum before earlier destination := by
  cases destination with
  | value next => exact moves.trans lands
  | test yes no => exact fun chosen isChosen => moves.trans (lands chosen isChosen)

variable (calm : ∀ stack, property (scene.state store stack))

include calm

theorem Scene.Moves.straight {code : List Instruction} {stack final : List Value}
    (holds : scene.arena.Holds id code (.jump next)) (new : bound ≤ id)
    (performed : Passes scene.machine scene.arena scene.callers.length property []
      ⟨code, .jump next, scene.state store stack⟩ ⟨[], .jump next, scene.state store final⟩) :
    scene.Moves property bound store id stack next final := by
  refine Crosses.block new ?_
  rw [Walk.enter_holds holds]
  exact performed.trans (Passes.jump rfl next (calm final))

theorem Scene.push_moves {value : Int64} (holds : scene.arena.Holds id [.const value] (.jump next))
    (new : bound ≤ id) (stack : List Value) :
    scene.Moves property bound store id stack next (.int value :: stack) :=
  .straight calm holds new (Passes.instruction rfl rfl (calm stack))

theorem Scene.field_moves (ready : scene.Ready) (typed : Typed scene.types store)
    {owner name : String} {datum : Datum}
    (holds : scene.arena.Holds id [loadReceiver, .getField owner name] (.jump next))
    (new : bound ≤ id) (stored : store name = some datum) (stack : List Value) :
    scene.Moves property bound store id stack next (datum.toValue :: stack) := by
  have declared : (scene.types name).isSome := by
    rw [← typed name, stored]
    rfl
  obtain ⟨object, found, present, same, has⟩ := ready.field? typed declared
  obtain rfl : found = datum := by simpa [stored, eq_comm] using same
  have loaded : ∀ stack, perform scene.machine.program { scene.frame with stack }
      (scene.base.showing scene.address store) loadReceiver =
      .ok (scene.base.showing scene.address store,
        .proceed { scene.frame with stack := .object scene.address :: stack }) := by
    intro stack
    simp [perform, loadReceiver, local?, ready.receiver, Frame.push]
  have read : perform scene.machine.program
      { scene.frame with stack := .object scene.address :: stack }
      (scene.base.showing scene.address store) (.getField owner name) =
      .ok (scene.base.showing scene.address store,
        .proceed { scene.frame with stack := found.toValue :: stack }) := by
    simp only [perform, readField, Frame.popObject, Frame.pop, bind, Except.bind, present,
      Option.getD_some, has]
    rfl
  exact .straight calm holds new ((Passes.instruction rfl (loaded stack) (calm stack)).trans
    (Passes.instruction rfl read (calm _)))

theorem Scene.arithmetic_moves {operator : BinaryOperator}
    (holds : scene.arena.Holds id [.arithmetic operator.arithmetic] (.jump next))
    (new : bound ≤ id) (left right : Int64) (stack : List Value) :
    scene.Moves property bound store id (.int right :: .int left :: stack) next
      (.int (operator.apply left right) :: stack) := by
  rw [← arithmetic_apply]
  exact .straight calm holds new (Passes.instruction rfl rfl (calm _))

theorem Scene.branch_moves {cond : Cond} {yes no : BlockIndex} {stack final : List Value}
    {chosen : Bool} (holds : scene.arena.Holds id [] (.branch cond yes no)) (new : bound ≤ id)
    (decided : cond.decide { scene.frame with stack } =
      .ok (chosen, { scene.frame with stack := final })) :
    scene.Moves property bound store id stack (if chosen then yes else no) final := by
  refine Crosses.block new ?_
  rw [Walk.enter_holds holds]
  exact Passes.branch rfl yes no decided (calm stack)

theorem consumer_lands (done : destination.consumer.run start = (.ok id, finish))
    (old : bound ≤ start.size) (extended : finish.Extends scene.arena) (stack : List Value)
    (datum : Datum) :
    scene.Lands property bound store stack datum id (datum.toValue :: stack) destination := by
  cases destination with
  | value next =>
      obtain ⟨rfl, -⟩ := pure_ok done
      exact Crosses.refl _ _
  | test yes no =>
      rintro chosen rfl
      have holds := (branch_ok done).extends (by simp) extended
      refine Scene.branch_moves calm holds (branch_new done old) ?_
      cases chosen <;> rfl

theorem branches_land {targets : BlockIndex × BlockIndex}
    (done : destination.branches.run start = (.ok targets, finish)) (old : bound ≤ start.size)
    (extended : finish.Extends scene.arena) (stack : List Value) (chosen : Bool) :
    scene.Lands property bound store stack (.boolean chosen)
      (if chosen then targets.1 else targets.2) stack destination := by
  cases destination with
  | value next =>
      obtain ⟨yes, middle, yesDone, rest⟩ := bind_ok done
      obtain ⟨no, last, noDone, pureDone⟩ := bind_ok rest
      obtain ⟨rfl, rfl⟩ := pure_ok pureDone
      have yesHolds := ((prepend_ok yesDone (by simp)).extends (by simp)
        (prepend_extends noDone)).extends (by simp) extended
      have noHolds := (prepend_ok noDone (by simp)).extends (by simp) extended
      have yesNew := prepend_new yesDone (by simp) old
      have noNew := prepend_new noDone (by simp) ((prepend_extends yesDone).still old)
      cases chosen with
      | true => exact Scene.push_moves calm yesHolds yesNew stack
      | false => exact Scene.push_moves calm noHolds noNew stack
  | test yes no =>
      obtain ⟨rfl, -⟩ := pure_ok done
      rintro other same
      simp only [Datum.boolean.injEq] at same
      subst same
      exact Crosses.refl _ _

/-- The graph of an expression computes its value, and the walk through it stays in new blocks. -/
theorem lowerExpression_lands (ready : scene.Ready) (typed : Typed scene.types store)
    {resolution : Resolution} {expression : Expression} {root : BlockIndex} {datum : Datum}
    (lowered : (lowerExpression resolution expression destination).run start = (.ok root, finish))
    (old : bound ≤ start.size) (extended : finish.Extends scene.arena)
    (value : expression.value? store = some datum) (stack : List Value) :
    scene.Lands property bound store stack datum root stack destination := by
  induction expression generalizing destination start finish root datum stack with
  | int position number =>
      rw [lowerExpression] at lowered
      obtain ⟨next, middle, consumed, pushed⟩ := bind_ok lowered
      simp only [Expression.value?, Option.some.injEq] at value
      subst value
      have before := (prepend_extends pushed).trans extended
      have holds := (prepend_ok pushed (by simp)).extends (by simp) extended
      have later := ((extending_consumer _).ok consumed).still old
      exact (consumer_lands calm consumed old before stack _).after
        (Scene.push_moves calm holds (prepend_new pushed (by simp) later) stack)
  | boolean position truth =>
      simp only [Expression.value?, Option.some.injEq] at value
      subst value
      cases destination with
      | value next =>
          rw [lowerExpression] at lowered
          have holds := (prepend_ok lowered (by simp)).extends (by simp) extended
          exact Scene.push_moves calm holds (prepend_new lowered (by simp) old) stack
      | test yes no =>
          rw [lowerExpression] at lowered
          obtain ⟨rfl, -⟩ := pure_ok lowered
          rintro chosen same
          simp only [Datum.boolean.injEq] at same
          subst same
          exact Crosses.refl _ _
  | field position name =>
      rw [lowerExpression] at lowered
      obtain ⟨next, middle, consumed, loaded⟩ := bind_ok lowered
      split at loaded
      · have before := (prepend_extends loaded).trans extended
        have holds := (prepend_ok loaded (by simp)).extends (by simp) extended
        have later := ((extending_consumer _).ok consumed).still old
        exact (consumer_lands calm consumed old before stack _).after
          (Scene.field_moves calm ready typed holds (prepend_new loaded (by simp) later)
            value stack)
      · exact (throw_ok loaded).elim
  | binary position operator left right leftIh rightIh =>
      rw [lowerExpression] at lowered
      obtain ⟨next, first, consumed, lowered⟩ := bind_ok lowered
      obtain ⟨operation, second, operated, lowered⟩ := bind_ok lowered
      obtain ⟨rightRoot, third, rightLowered, leftLowered⟩ := bind_ok lowered
      have leftExtends := ((extending_lowerExpression _ _ _).ok leftLowered).trans extended
      have rightExtends := ((extending_lowerExpression _ _ _).ok rightLowered).trans leftExtends
      have firstExtends := (prepend_extends operated).trans rightExtends
      have firstOld := ((extending_consumer _).ok consumed).still old
      have secondOld := (prepend_extends operated).still firstOld
      have thirdOld := ((extending_lowerExpression _ _ _).ok rightLowered).still secondOld
      have holds := (prepend_ok operated (by simp)).extends (by simp) rightExtends
      simp only [Expression.value?] at value
      split at value
      · rename_i one other leftValue rightValue
        simp only [Option.some.injEq] at value
        subst value
        have leftMoves := leftIh leftLowered thirdOld extended leftValue stack
        have rightMoves := rightIh rightLowered secondOld leftExtends rightValue (.int one :: stack)
        have operates := Scene.arithmetic_moves calm holds
          (prepend_new operated (by simp) firstOld) one other stack
        exact (consumer_lands calm consumed old firstExtends stack _).after
          ((leftMoves.trans rightMoves).trans operates)
      · simp at value
  | comparison position operator left right leftIh rightIh =>
      rw [lowerExpression] at lowered
      obtain ⟨⟨yes, no⟩, first, branched, lowered⟩ := bind_ok lowered
      obtain ⟨decision, second, decided, lowered⟩ := bind_ok lowered
      obtain ⟨rightRoot, third, rightLowered, leftLowered⟩ := bind_ok lowered
      have leftExtends := ((extending_lowerExpression _ _ _).ok leftLowered).trans extended
      have rightExtends := ((extending_lowerExpression _ _ _).ok rightLowered).trans leftExtends
      have firstExtends := ((extending_branch _ _ _).ok decided).trans rightExtends
      have firstOld := ((extending_branches _).ok branched).still old
      have secondOld := ((extending_branch _ _ _).ok decided).still firstOld
      have thirdOld := ((extending_lowerExpression _ _ _).ok rightLowered).still secondOld
      have holds := (branch_ok decided).extends (by simp) rightExtends
      simp only [Expression.value?] at value
      split at value
      · rename_i one other leftValue rightValue
        rw [Option.map_eq_some_iff] at value
        obtain ⟨result, compared, rfl⟩ := value
        have leftMoves := leftIh leftLowered thirdOld extended leftValue stack
        have rightMoves := rightIh rightLowered secondOld leftExtends rightValue
          (one.toValue :: stack)
        have decides := Scene.branch_moves calm holds (branch_new decided firstOld)
          (cond_decide operator compared scene.frame stack)
        exact (branches_land calm branched old firstExtends stack result).after
          ((leftMoves.trans rightMoves).trans decides)
      · simp at value
  | not position operand ih =>
      rw [lowerExpression] at lowered
      obtain ⟨⟨yes, no⟩, first, branched, lowered⟩ := bind_ok lowered
      have firstExtends := ((extending_lowerExpression _ _ _).ok lowered).trans extended
      have firstOld := ((extending_branches _).ok branched).still old
      simp only [Expression.value?] at value
      split at value
      · rename_i truth operandValue
        simp only [Option.some.injEq] at value
        subst value
        have moves := ih lowered firstOld extended operandValue stack truth rfl
        refine (branches_land calm branched old firstExtends stack (!truth)).after ?_
        cases truth with
        | true => exact moves
        | false => exact moves
      · simp at value
  | and position left right leftIh rightIh =>
      rw [lowerExpression] at lowered
      obtain ⟨⟨yes, no⟩, first, branched, lowered⟩ := bind_ok lowered
      obtain ⟨rightRoot, second, rightLowered, leftLowered⟩ := bind_ok lowered
      have leftExtends := ((extending_lowerExpression _ _ _).ok leftLowered).trans extended
      have firstExtends := ((extending_lowerExpression _ _ _).ok rightLowered).trans leftExtends
      have firstOld := ((extending_branches _).ok branched).still old
      have secondOld := ((extending_lowerExpression _ _ _).ok rightLowered).still firstOld
      simp only [Expression.value?] at value
      split at value
      · rename_i leftValue
        have leftMoves := leftIh leftLowered secondOld extended leftValue stack true rfl
        split at value
        · rename_i truth rightValue
          simp only [Option.some.injEq] at value
          subst value
          have rightMoves := rightIh rightLowered firstOld leftExtends rightValue stack truth rfl
          exact (branches_land calm branched old firstExtends stack truth).after
            (leftMoves.trans rightMoves)
        · simp at value
      · rename_i leftValue
        simp only [Option.some.injEq] at value
        subst value
        have leftMoves := leftIh leftLowered secondOld extended leftValue stack false rfl
        exact (branches_land calm branched old firstExtends stack false).after leftMoves
      · simp at value
  | or position left right leftIh rightIh =>
      rw [lowerExpression] at lowered
      obtain ⟨⟨yes, no⟩, first, branched, lowered⟩ := bind_ok lowered
      obtain ⟨rightRoot, second, rightLowered, leftLowered⟩ := bind_ok lowered
      have leftExtends := ((extending_lowerExpression _ _ _).ok leftLowered).trans extended
      have firstExtends := ((extending_lowerExpression _ _ _).ok rightLowered).trans leftExtends
      have firstOld := ((extending_branches _).ok branched).still old
      have secondOld := ((extending_lowerExpression _ _ _).ok rightLowered).still firstOld
      simp only [Expression.value?] at value
      split at value
      · rename_i leftValue
        have leftMoves := leftIh leftLowered secondOld extended leftValue stack false rfl
        split at value
        · rename_i truth rightValue
          simp only [Option.some.injEq] at value
          subst value
          have rightMoves := rightIh rightLowered firstOld leftExtends rightValue stack truth rfl
          exact (branches_land calm branched old firstExtends stack truth).after
            (leftMoves.trans rightMoves)
        · simp at value
      · rename_i leftValue
        simp only [Option.some.injEq] at value
        subst value
        have leftMoves := leftIh leftLowered secondOld extended leftValue stack true rfl
        exact (branches_land calm branched old firstExtends stack true).after leftMoves
      · simp at value

end Landing

theorem lowerExpression_settles (ready : scene.Ready) (calm : scene.Calm property)
    (typed : Typed scene.types store) {resolution : Resolution} {expression : Expression}
    {destination : Destination} {start finish : Arena} {root : BlockIndex} {datum : Datum}
    (lowered : (lowerExpression resolution expression destination).run start = (.ok root, finish))
    (extended : finish.Extends scene.arena) (value : expression.value? store = some datum)
    (stack : List Value) :
    scene.Settles property store stack datum (scene.enter root store stack) destination :=
  (lowerExpression_lands (fun stack => calm store stack typed) ready typed lowered
    (Nat.zero_le start.size) extended value stack).settles

end Assay.Lowering
