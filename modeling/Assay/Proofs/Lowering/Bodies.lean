import Assay.Proofs.Lowering.Commands

/-!
The graph of the body of a member: what the body does, then the verdict of a test or the return of a
fixture.
-/

namespace Assay.Lowering

open Assay.Graph Machine Syntax Typing

def endCode : Role → Ending → List Instruction
  | .test, .failed position => verdict (failureMessage position) 1
  | .test, _ => verdict "passed" 0
  | .fixture, _ => [.ret .void]

theorem runs_not_failed {checker : Checker} {command : Command} {store final : Store}
    {ending : Ending} (forbidden : checker.assertPermitted = false)
    (runs : Runs command store ending final) (fine : (checkCommand checker command).2 = [])
    (position : Position) : ending ≠ .failed position := by
  induction runs with
  | skip => simp
  | seqDone _ _ _ secondIh => exact secondIh (checkCommand_seq fine).2
  | seqStop _ _ ih => exact ih (checkCommand_seq fine).1
  | ifThenTrue _ _ ih =>
      simp only [checkCommand, List.append_eq_nil_iff] at fine
      exact ih fine.2
  | ifThenFalse _ => simp
  | ifElseTrue _ _ ih =>
      simp only [checkCommand, List.append_eq_nil_iff] at fine
      exact ih fine.1.2
  | ifElseFalse _ _ ih =>
      simp only [checkCommand, List.append_eq_nil_iff] at fine
      exact ih fine.2
  | loopDone _ => simp
  | loopAgain _ _ _ _ againIh => exact againIh fine
  | loopStop _ _ _ ih =>
      simp only [checkCommand, List.append_eq_nil_iff] at fine
      exact ih fine.2
  | ret => simp
  | assign _ => simp
  | assertTrue _ => simp
  | assertFalse _ => simp [checkCommand, forbidden] at fine

theorem extending_lowerBody (role : Role) (resolution : Resolution) (body : Command) :
    Extending (lowerBody role resolution body) := by
  have noArguments : NoArguments (exitCode role) := by cases role <;> rfl
  exact extending_bind (extending_newBlock noArguments) fun exit => extending_lowerCommand _ _ _ _

variable {scene : Scene} {property : State → Prop}

theorem arrives_endCode {arena : Arena} {role : Role} {owner : ClassType} {exit id : BlockIndex}
    {body : Command} {store final : Store} {ending : Ending}
    (fine : (checkCommand (Member.checkerFor role owner) body).2 = [])
    (exits : HasCode arena exit (exitCode role)) (runs : Runs body store ending final)
    (arrives : Arrives arena exit exit ending id) : HasCode arena id (endCode role ending) := by
  cases role with
  | test =>
      cases ending with
      | done => obtain rfl : id = exit := arrives; exact exits
      | returned => obtain rfl : id = exit := arrives; exact exits
      | failed position => exact arrives
  | fixture =>
      cases ending with
      | done => obtain rfl : id = exit := arrives; exact exits
      | returned => obtain rfl : id = exit := arrives; exact exits
      | failed position => exact absurd rfl (runs_not_failed rfl runs fine position)

theorem lowerBody_leads (ready : scene.Ready) (calm : scene.Calm property) {role : Role}
    {owner : ClassType} (types : scene.types = (Member.checkerFor role owner).fieldType?)
    {resolution : Resolution} {body : Command} {root : BlockIndex} {start finish : Arena}
    {store final : Store} {ending : Ending}
    (fine : (checkCommand (Member.checkerFor role owner) body).2 = [])
    (typed : Typed scene.types store)
    (lowered : (lowerBody role resolution body).run start = (.ok root, finish))
    (extended : finish.Extends scene.arena) (runs : Runs body store ending final) :
    ∃ id, HasCode scene.arena id (endCode role ending) ∧
      scene.Leads property (scene.enter root store []) (scene.enter id final []) := by
  obtain ⟨exit, middle, created, lowered⟩ := bind_ok lowered
  have before := ((extending_lowerCommand _ _ _ _).ok lowered).trans extended
  have exits : HasCode scene.arena exit (exitCode role) :=
    HasCode.extends ⟨_, newBlock_ok created⟩ before
  obtain ⟨id, arrives, leads⟩ :=
    lowerCommand_leads ready calm types runs fine typed lowered extended
  exact ⟨id, arrives_endCode fine exits runs arrives, leads⟩

theorem lowerBody_lasts (ready : scene.Ready) (calm : scene.Calm property) {role : Role}
    {owner : ClassType} (types : scene.types = (Member.checkerFor role owner).fieldType?)
    {resolution : Resolution} {body : Command} {root : BlockIndex} {start finish : Arena}
    {store : Store} {fuel : Nat}
    (fine : (checkCommand (Member.checkerFor role owner) body).2 = [])
    (typed : Typed scene.types store)
    (lowered : (lowerBody role resolution body).run start = (.ok root, finish))
    (extended : finish.Extends scene.arena)
    (behind : ∀ ending final id, Runs body store ending final →
      HasCode scene.arena id (endCode role ending) →
      scene.Lasts property fuel (scene.enter id final [])) :
    scene.Lasts property fuel (scene.enter root store []) := by
  obtain ⟨exit, middle, created, lowered⟩ := bind_ok lowered
  have before := ((extending_lowerCommand _ _ _ _).ok lowered).trans extended
  have exits : HasCode scene.arena exit (exitCode role) :=
    HasCode.extends ⟨_, newBlock_ok created⟩ before
  exact lowerCommand_lasts ready calm types fine typed lowered extended
    fun ending final id runs arrives =>
      behind ending final id runs (arrives_endCode fine exits runs arrives)

theorem perform_outputCall (program : Bytecode.Program) (frame : Frame) (world : World)
    (message : String) :
    perform program { frame with stack := [.text message] } world outputCall =
      match world.write? message with
      | some written => .ok (written, .proceed { frame with stack := [] })
      | none => .error .outputLimit := rfl

theorem verdict_leads (calm : scene.Calm property) {store : Store} (typed : Typed scene.types store)
    (returns : scene.frame.routine.returns ≠ .void) {id : BlockIndex} {message : String}
    {status : Int64} (has : HasCode scene.arena id (verdict message status)) :
    (∀ written, (scene.base.showing scene.address store).write? message = some written →
      (∀ stack, property (.running { scene.frame with stack } scene.callers written)) →
      ∃ transfer, scene.Leads property (scene.enter id store [])
        ⟨[], transfer, deliver (.int status) written scene.callers⟩) ∧
    ((scene.base.showing scene.address store).write? message = none →
      ∃ code transfer stack, scene.Leads property (scene.enter id store [])
        ⟨code, transfer, failWith ({ scene.frame with stack } :: scene.callers)
          (scene.base.showing scene.address store) .outputLimit⟩) := by
  obtain ⟨transfer, holds⟩ := has
  unfold Scene.enter Scene.Leads
  rw [Walk.enter_holds holds]
  have pushed : Leads scene.machine scene.arena scene.callers.length property
      ⟨verdict message status, transfer, scene.state store []⟩
      ⟨[outputCall, .const status, .ret .int], transfer, scene.state store [.text message]⟩ :=
    Leads.instruction rfl rfl (calm _ _ typed)
  have called := perform_outputCall scene.machine.program scene.frame
    (scene.base.showing scene.address store) message
  constructor
  · intro written accepted calmAfter
    rw [accepted] at called
    have printed : Leads scene.machine scene.arena scene.callers.length property
        ⟨[outputCall, .const status, .ret .int], transfer, scene.state store [.text message]⟩
        ⟨[.const status, .ret .int], transfer,
          .running { scene.frame with stack := [] } scene.callers written⟩ :=
      Leads.instruction rfl called (calm _ _ typed)
    have loaded : Leads scene.machine scene.arena scene.callers.length property
        ⟨[.const status, .ret .int], transfer,
          .running { scene.frame with stack := [] } scene.callers written⟩
        ⟨[.ret .int], transfer,
          .running { scene.frame with stack := [.int status] } scene.callers written⟩ :=
      Leads.instruction rfl rfl (calmAfter _)
    have left : leave { scene.frame with stack := [.int status] } written .int =
        .ok (written, .finish (.int status)) := by
      have notVoid : ¬(ValueKind.int = ValueKind.void) := by simp
      simp only [leave, notVoid, returns, if_false]
      rfl
    have ended : Leads scene.machine scene.arena scene.callers.length property
        ⟨[.ret .int], transfer,
          .running { scene.frame with stack := [.int status] } scene.callers written⟩
        ⟨[], transfer, deliver (.int status) written scene.callers⟩ := by
      refine Leads.step ?_ (calmAfter _)
      rw [Walk.step_instruction rfl, perform, left]
      rfl
    exact ⟨transfer, ((pushed.trans printed).trans loaded).trans ended⟩
  · intro refused
    rw [refused] at called
    have failed : Leads scene.machine scene.arena scene.callers.length property
        ⟨[outputCall, .const status, .ret .int], transfer, scene.state store [.text message]⟩
        ⟨[.const status, .ret .int], transfer,
          failWith ({ scene.frame with stack := [.text message] } :: scene.callers)
            (scene.base.showing scene.address store) .outputLimit⟩ := by
      refine Leads.step ?_ (calm _ _ typed)
      unfold Scene.state
      rw [Walk.step_instruction rfl, called]
      rfl
    exact ⟨_, transfer, _, pushed.trans failed⟩

theorem return_leads (calm : scene.Calm property) {store : Store} (typed : Typed scene.types store)
    (returns : scene.frame.routine.returns = .void) {id : BlockIndex}
    (has : HasCode scene.arena id [.ret .void]) :
    ∃ transfer, scene.Leads property (scene.enter id store [])
      ⟨[], transfer, deliver .nil (scene.base.showing scene.address store) scene.callers⟩ := by
  obtain ⟨transfer, holds⟩ := has
  refine ⟨transfer, ?_⟩
  unfold Scene.enter Scene.Leads
  rw [Walk.enter_holds holds]
  refine Leads.step ?_ (calm _ _ typed)
  unfold Scene.state
  rw [Walk.step_instruction rfl]
  simp only [perform, leave, returns, if_true]
  rfl

def ReturnsFor (role : Role) (routine : Bytecode.Routine) : Prop :=
  match role with
  | .test => routine.returns ≠ .void
  | .fixture => routine.returns = .void

theorem end_leads (calm : scene.Calm property) {store : Store} (typed : Typed scene.types store)
    {role : Role} (returns : ReturnsFor role scene.frame.routine) {id : BlockIndex} {ending : Ending}
    (has : HasCode scene.arena id (endCode role ending)) :
    (∀ after, (scene.base.showing scene.address store).announce (ending.printed? role) =
        some after →
      (∀ stack, property (.running { scene.frame with stack } scene.callers after)) →
      ∃ code transfer, scene.Leads property (scene.enter id store [])
        ⟨code, transfer, deliver (ending.result role) after scene.callers⟩) ∧
    ((scene.base.showing scene.address store).announce (ending.printed? role) = none →
      ∃ code transfer stack, scene.Leads property (scene.enter id store [])
        ⟨code, transfer, failWith ({ scene.frame with stack } :: scene.callers)
          (scene.base.showing scene.address store) .outputLimit⟩) := by
  cases role with
  | test =>
      obtain ⟨message, isVerdict, printed⟩ : ∃ message,
          endCode .test ending = verdict message ending.status ∧
          ending.printed? .test = some message := by
        cases ending <;> exact ⟨_, rfl, rfl⟩
      rw [isVerdict] at has
      rw [printed]
      obtain ⟨accepted, refused⟩ := verdict_leads calm typed returns has
      refine ⟨fun after announced calmAfter => ?_, refused⟩
      obtain ⟨transfer, leads⟩ := accepted after announced calmAfter
      exact ⟨[], transfer, leads⟩
  | fixture =>
      constructor
      · intro after announced _
        simp only [Ending.printed?, World.announce, Option.some.injEq] at announced
        subst announced
        obtain ⟨transfer, leads⟩ := return_leads calm typed returns has
        exact ⟨[], transfer, leads⟩
      · intro refused
        simp [Ending.printed?, World.announce] at refused

end Assay.Lowering
