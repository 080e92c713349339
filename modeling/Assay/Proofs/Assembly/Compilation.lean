import Assay.Assembly.Compile
import Assay.Proofs.Assembly.Linearization
import Assay.Proofs.Assembly.Orders
import Assay.Proofs.Lowering.Bodies
import Assay.Proofs.Typing.Acceptance
import Mathlib.Data.List.Forall2

/-!
What a successful compilation leaves behind: for each compiled member a routine with the code of its
body, whose constants stay in the pool, under a name that no other routine has.
-/

namespace Assay.Assembly

open Bytecode Assay.Graph Lowering Syntax Typing

structure GraphOf (role : Role) (body : Command) (constants : Array Constant) (routine : Routine)
    (resolution : Resolution) (root : BlockIndex) (linked : RoutineCode) : Prop where
  lowered : ∃ start finish, (lowerBody role resolution body).run start = (.ok root, finish) ∧
    finish.Extends linked.arena
  code : linked.code = routine.code
  retains : Retains linked.constants constants
  linearized : Linearized linked root

structure RoutineFor (role : Role) (body : Command) (constants : Array Constant)
    (routine : Routine) : Prop where
  static : routine.isStatic = true
  params : routine.params = 1
  locals : routine.locals = 1
  returns : kindOf role.resultKind = .ok routine.returns
  graph : ∃ resolution root linked, GraphOf role body constants routine resolution root linked

theorem RoutineFor.hasPlace {role : Role} {body : Command} {constants : Array Constant}
    {routine : Routine} (routineFor : RoutineFor role body constants routine) :
    Machine.Frame.hasPlace routine = true := by
  rw [Machine.Frame.hasPlace, routineFor.locals, routineFor.params]
  decide

theorem RoutineFor.retained {role : Role} {body : Command} {before after : Array Constant}
    {routine : Routine} (routineFor : RoutineFor role body before routine)
    (retains : Retains before after) : RoutineFor role body after routine := by
  obtain ⟨resolution, root, linked, graph⟩ := routineFor.graph
  exact ⟨routineFor.static, routineFor.params, routineFor.locals, routineFor.returns, resolution,
    root, linked, graph.lowered, graph.code, graph.retains.trans retains, graph.linearized⟩

structure Advances (before after : ClassImage) : Prop where
  name : after.name = before.name
  retains : Retains before.constants after.constants
  routines : ∀ name routine, before.routine? name = some routine →
    after.routine? name = some routine

theorem Advances.refl (image : ClassImage) : Advances image image :=
  ⟨rfl, Retains.refl _, fun _ _ found => found⟩

theorem Advances.trans {first second third : ClassImage} (earlier : Advances first second)
    (later : Advances second third) : Advances first third where
  name := later.name.trans earlier.name
  retains := earlier.retains.trans later.retains
  routines := fun name routine found => later.routines name routine (earlier.routines name routine found)

theorem Grows.advances {before after : ClassImage} (grows : Grows before after) :
    Advances before after where
  name := grows.name
  retains := grows.retains
  routines := fun name routine found => by
    unfold ClassImage.routine? at found ⊢
    rw [grows.routines]
    exact found

theorem advances_push (image : ClassImage) (routine : Routine) :
    Advances image { image with routines := image.routines.push routine } where
  name := rfl
  retains := Retains.refl _
  routines := fun name other found => by
    unfold ClassImage.routine? at found ⊢
    rw [Array.find?_push]
    simp only [found, Option.some_or]

theorem routine?_push {image : ClassImage} {routine : Routine}
    (free : image.routine? routine.name = none) :
    ClassImage.routine? { image with routines := image.routines.push routine } routine.name =
      some routine := by
  unfold ClassImage.routine? at free ⊢
  rw [Array.find?_push, free]
  simp

theorem name_of_routine? {image : ClassImage} {name : String} {routine : Routine}
    (found : image.routine? name = some routine) : routine.name = name := by
  simpa using Array.find?_some found

def Argumentless (constants : Array Constant) : Prop :=
  ∀ method : MethodRef, .ofMethod method ∈ constants → method.args = 0

theorem intern_argumentless {image : ClassImage} {constant : Constant}
    (sound : PoolSound image.pool) (argumentless : Argumentless image.constants)
    (fine : ∀ method, constant = .ofMethod method → method.args = 0) :
    Argumentless (image.intern constant).1.constants := by
  intro method member
  rcases (ConstantPool.intern_interned sound.indexed constant).nothingElse _ member with old | new
  · exact argumentless method old
  · exact fine method new.symm

theorem lowerInstruction_argumentless {image : ClassImage} {instruction : Instruction}
    (sound : PoolSound image.pool) (argumentless : Argumentless image.constants)
    (fine : instruction.isArgumentless = true) :
    Argumentless (lowerInstruction image instruction).1.constants := by
  have plain : ∀ constant : Constant, constant.method = none →
      ∀ method, constant = .ofMethod method → method.args = 0 := by
    rintro _ noMethod method rfl
    simp [Constant.ofMethod] at noMethod
  cases instruction with
  | const value => exact intern_argumentless sound argumentless (plain _ rfl)
  | newString text => exact intern_argumentless sound argumentless (plain _ rfl)
  | load slot => exact argumentless
  | getField owner field => exact intern_argumentless sound argumentless (plain _ rfl)
  | putField owner field => exact intern_argumentless sound argumentless (plain _ rfl)
  | arithmetic operator => exact argumentless
  | virtualCall owner name args returns =>
      simp only [lowerInstruction]
      split
      · exact argumentless
      · rename_i kind known
        change Argumentless
          (image.intern (.ofMethod { owner, name, args, returns := kind })).1.constants
        refine intern_argumentless sound argumentless fun method same => ?_
        simp only [Constant.ofMethod, Constant.mk.injEq, Option.some.injEq, true_and] at same
        subst same
        simpa [Instruction.isArgumentless] using fine
  | ret kind => exact argumentless
  | unknown code => exact argumentless

theorem lowerCode_argumentless {code : List Instruction} (summary : BlockSummary) (isExit : Bool)
    (bytes : Array UInt8) {image : ClassImage} (sound : PoolSound image.pool)
    (argumentless : Argumentless image.constants) (fine : NoArguments code) :
    Argumentless (lowerCode summary isExit code image bytes).1.constants := by
  induction code generalizing image bytes with
  | nil => exact argumentless
  | cons instruction rest ih =>
      simp only [NoArguments, List.all_cons, Bool.and_eq_true] at fine
      have next := lowerInstruction_argumentless sound argumentless fine.1
      have grows := (lowerInstruction_lowers instruction sound).1
      simp only [lowerCode]
      split
      · exact argumentless
      · rcases lowered : lowerInstruction image instruction with ⟨grown, problem | encoded⟩
        · rw [lowered] at next
          exact next
        · rw [lowered] at next grows
          exact ih _ grows.sound next fine.2

theorem materialize_argumentless {generator : Generator} {arena : Arena}
    (visited : Std.HashSet BlockIndex) (id : BlockIndex) (sound : generator.Sound arena)
    (calls : arena.Argumentless) (argumentless : Argumentless generator.image.constants) :
    Argumentless (generator.materialize arena visited id).1.image.constants := by
  simp only [Generator.materialize]
  split
  · exact argumentless
  · generalize found : (arena.get? id).getD { id, code := [], transfer := .exit, incoming := 0 } = block
    have fine : NoArguments block.code := by
      cases stored : arena.get? id with
      | none => rw [← found, stored]; rfl
      | some held => rw [← found, stored]; exact calls id held stored
    split
    · exact argumentless
    · have lowered := lowerCode_argumentless (block.summary) block.isExit #[] sound.pool
        argumentless fine
      rcases result : lowerCode (block.summary) block.isExit block.code generator.image #[] with
        ⟨image, problem | bytes⟩
      · rw [result] at lowered
        exact lowered
      · rw [result] at lowered
        dsimp only
        split
        · exact lowered
        · exact lowered

structure Consistent (run : Run) (generator : Generator) : Prop where
  generated : Generated run.arena generator
  calls : run.arena.Argumentless
  methods : Argumentless generator.image.constants

/-- The state between members: what was started has its routine, and no routine is called on
objects. -/
structure Progress (ref : ClassRef) (compilation : Compilation) : Prop where
  consistent : Consistent compilation.run compilation.generator
  started : ∀ signature : Signature, signature.owner = ref →
    signature.unit ∈ compilation.run.started →
    (compilation.generator.image.routine? signature.name).isSome
  static : ∀ routine ∈ compilation.generator.image.routines, routine.isStatic = true

theorem followTrace_ok {trace : List Visit} {before after : Emission}
    (consistent : Consistent before.run before.generator)
    (followed : followTrace trace before = (after, .ok ())) :
    Consistent after.run after.generator ∧ after.run.arena = before.run.arena ∧
      after.run.code = before.run.code ∧ after.run.started = before.run.started ∧
      Grows before.generator.image after.generator.image := by
  induction trace generalizing before with
  | nil =>
      simp only [followTrace, Prod.mk.injEq, and_true] at followed
      subst followed
      exact ⟨consistent, rfl, rfl, rfl, Grows.refl consistent.generated.sound.pool⟩
  | cons visit rest ih =>
      cases visit with
      | enter id =>
          obtain ⟨run, generator, handed⟩ := before
          exact @ih { run := run.enter id, generator, handed }
            ⟨consistent.generated, consistent.calls, consistent.methods⟩ followed
      | leave id =>
          simp only [followTrace] at followed
          split at followed
          · simp at followed
          · rename_i generator materialized
            have made : (before.generator.materialize before.run.arena before.run.visited id).1 =
                generator := by rw [materialized]
            have generated := consistent.generated.materialize before.run.visited id
            have grows :=
              (Generator.materialize_sound before.run.visited id consistent.generated.sound).1
            have methods := materialize_argumentless before.run.visited id
              consistent.generated.sound consistent.calls consistent.methods
            rw [made] at generated grows methods
            obtain ⟨laterConsistent, sameArena, sameCode, sameStarted, laterGrows⟩ :=
              @ih { before with generator, handed := id :: before.handed }
                ⟨generated, consistent.calls, methods⟩ followed
            exact ⟨laterConsistent, sameArena, sameCode, sameStarted, grows.trans laterGrows⟩

theorem emitMember_run (signature : Signature) (root : BlockIndex) (run : Run) (generator : Generator)
    (log : List Logging.Event) :
    (emitMember signature root).run ⟨run, generator, log⟩ =
      let (emission, result) := emitReachable run generator root
      let { run, generator, handed } := emission
      let log := handed.reverse.foldl (fun log id => blockEvent run.arena id :: log) log
      match result with
      | .error problem => (.error problem, { run, generator, log })
      | .ok () =>
        (.ok (), { run, generator, log := loweredEvent signature handed.length :: log }) := rfl

theorem lowerMember_run (member : Member) (run : Run) (generator : Generator)
    (log : List Logging.Event) :
    (lowerMember member).run ⟨run, generator, log⟩ =
      match Lowering.lowerMember member run with
      | (run, .error cause) => (.error (.member cause), { run, generator, log })
      | (run, .ok root) => (.ok root, { run, generator, log }) := rfl

theorem addMemberRoutine_run (signature : Signature) (run : Run) (generator : Generator)
    (log : List Logging.Event) :
    (addMemberRoutine signature).run ⟨run, generator, log⟩ =
      let added : Except AssemblyError (Generator × Routine) := do
        let returns ← kindOf signature.role.resultKind
        match run.codeOf? signature.unit with
        | none => throw (.noCode signature.unit)
        | some root => generator.addRoutine run.arena signature.name 1 returns root
      match added with
      | .error problem => (.error problem, { run, generator, log })
      | .ok (generator, routine) =>
        let event := Logging.Event.debug "routine generated"
          [("class", .text generator.image.name), ("routine", .text routine.name),
            ("size", .number routine.code.size)]
        (.ok (), { run, generator, log := event :: log }) := rfl

theorem compileMain_run (owner : String) (fixtures tests : List Signature) (run : Run)
    (generator : Generator) (log : List Logging.Event) :
    (compileMain owner fixtures tests).run ⟨run, generator, log⟩ =
      match addMain owner fixtures tests generator.image with
      | (image, .error problem) =>
        (.error problem, { run, generator := { generator with image }, log })
      | (image, .ok ()) =>
        let event := Logging.Event.debug "main generated"
          [("class", .text image.name), ("routine", .text mainName),
            ("tests", .number tests.length), ("fixtures", .number fixtures.length)]
        (.ok (), { run, generator := { generator with image }, log := event :: log }) := (rfl)

theorem emitMember_ok {signature : Signature} {root : BlockIndex} {before after : Compilation}
    (consistent : Consistent before.run before.generator)
    (done : (emitMember signature root).run before = (.ok (), after)) :
    Consistent after.run after.generator ∧ after.run.arena = before.run.arena ∧
      after.run.code = before.run.code ∧ after.run.started = before.run.started ∧
      Grows before.generator.image after.generator.image := by
  obtain ⟨run, generator, log⟩ := before
  rw [emitMember_run] at done
  rcases emitted : emitReachable run generator root with ⟨emission, problem | finished⟩
  · rw [emitted] at done
    have failed := (Prod.mk.inj done).1
    simp at failed
  · rw [emitted] at done
    have same := (Prod.mk.inj done).2
    subst same
    exact @followTrace_ok _ { run, generator, handed := [] } emission consistent emitted

theorem lowerMember_ok {member : Member} {signature : Signature} {before after : Compilation}
    {root : Option BlockIndex} (known : member.signature = some signature)
    (done : (lowerMember member).run before = (.ok root, after)) :
    after.generator = before.generator ∧
      ((root = none ∧ after.run = before.run ∧ signature.unit ∈ before.run.started) ∨
      ∃ id, root = some id ∧ after.run.started = signature.unit :: before.run.started ∧
        after.run.codeOf? signature.unit = some id ∧
        (lowerBody member.role member.resolution member.declaration.body).run before.run.arena =
          (.ok id, after.run.arena)) := by
  obtain ⟨run, generator, log⟩ := before
  rw [lowerMember_run] at done
  rcases lowered : Lowering.lowerMember member run with ⟨later, problem | result⟩
  · rw [lowered] at done
    have failed := (Prod.mk.inj done).1
    simp at failed
  · rw [lowered] at done
    obtain ⟨sameRoot, sameState⟩ := Prod.mk.inj done
    simp only [Except.ok.injEq] at sameRoot
    subst sameRoot sameState
    refine ⟨rfl, ?_⟩
    simp only [Lowering.lowerMember, known, Run.markStarted] at lowered
    by_cases isStarted : run.isStarted signature.unit = true
    · simp only [isStarted, if_true, Prod.mk.injEq, Except.ok.injEq] at lowered
      obtain ⟨rfl, rfl⟩ := lowered
      exact .inl ⟨rfl, rfl, by simpa [Run.isStarted] using isStarted⟩
    · simp only [isStarted, Bool.false_eq_true, if_false] at lowered
      rcases body : (lowerBody member.role member.resolution member.declaration.body).run
        run.arena with ⟨problem | id, arena⟩
      · rw [body] at lowered
        simp at lowered
      · rw [body] at lowered
        simp only [Run.setCode] at lowered
        split at lowered
        · simp at lowered
        · rename_i recorded isRecorded
          simp only [Prod.mk.injEq, Except.ok.injEq] at lowered
          obtain ⟨rfl, rfl⟩ := lowered
          split at isRecorded
          · simp at isRecorded
          · simp only [Except.ok.injEq] at isRecorded
            subst isRecorded
            exact .inr ⟨id, rfl, rfl, by simp [Run.codeOf?], rfl⟩

theorem addMemberRoutine_ok {signature : Signature} {before after : Compilation}
    (done : (addMemberRoutine signature).run before = (.ok (), after)) :
    ∃ returns root routine, kindOf signature.role.resultKind = .ok returns ∧
      before.run.codeOf? signature.unit = some root ∧
      before.generator.addRoutine before.run.arena signature.name 1 returns root =
        .ok (after.generator, routine) ∧ after.run = before.run := by
  obtain ⟨run, generator, log⟩ := before
  rw [addMemberRoutine_run] at done
  cases kind : kindOf signature.role.resultKind with
  | error problem =>
      simp only [kind, bind, Except.bind] at done
      have failed := (Prod.mk.inj done).1
      simp at failed
  | ok returns =>
      cases code : run.codeOf? signature.unit with
      | none =>
          simp only [kind, code, bind, Except.bind] at done
          have failed := (Prod.mk.inj done).1
          simp at failed
      | some root =>
          simp only [kind, code, bind, Except.bind] at done
          rcases added : generator.addRoutine run.arena signature.name 1 returns root with
            problem | ⟨grown, routine⟩
          · rw [added] at done
            have failed := (Prod.mk.inj done).1
            simp at failed
          · rw [added] at done
            have same := (Prod.mk.inj done).2
            subst same
            exact ⟨returns, root, routine, rfl, rfl, added, rfl⟩

theorem Signature.eq_of_unit {first second : Signature} (sameOwner : first.owner = second.owner)
    (sameUnit : first.unit = second.unit) : first.name = second.name := by
  have qualified := congrArg UnitName.qualified sameUnit
  simp only [Signature.unit, Signature.qualifiedName, sameOwner] at qualified
  exact (String.append_right_inj _).mp qualified

theorem compileMember_ok {checked : CheckedClass} {signature : Signature} {member : Member}
    {before after : Compilation} (progress : Progress signature.owner before)
    (found : checked.member? signature = some member) (sameRole : member.role = signature.role)
    (done : (compileMember checked signature).run before = (.ok (), after)) :
    Progress signature.owner after ∧
      Advances before.generator.image after.generator.image ∧
      ∃ routine, after.generator.image.routine? signature.name = some routine ∧
        RoutineFor member.role member.declaration.body after.generator.image.constants
          routine := by
  have known : member.signature = some signature := by
    simpa using List.find?_some found
  simp only [compileMember, found] at done
  obtain ⟨root, lowered, isLowered, done⟩ := bind_ok done
  obtain ⟨sameGenerator, ⟨rfl, sameRun, isStarted⟩ | ⟨id, rfl, started, code, body⟩⟩ :=
    lowerMember_ok known isLowered
  · obtain ⟨returns, root, routine, -, -, added, -⟩ := addMemberRoutine_ok done
    obtain ⟨_, -, -, free, -⟩ := Generator.addRoutine_ok added
    have present := progress.started signature rfl isStarted
    rw [sameGenerator] at free
    rw [free] at present
    simp at present
  · obtain ⟨_, emitted, isEmitted, done⟩ := bind_ok done
    obtain ⟨returns, root, routine, kind, isRoot, added, sameRun⟩ := addMemberRoutine_ok done
    have extending := extending_lowerBody member.role member.resolution member.declaration.body
    have extended := extending.ok body
    have consistent : Consistent lowered.run lowered.generator := by
      rw [sameGenerator]
      exact ⟨progress.consistent.generated.extend extended,
        extending.argumentless body progress.consistent.calls, progress.consistent.methods⟩
    obtain ⟨emittedConsistent, sameArena, sameCode, sameStarted, grows⟩ :=
      emitMember_ok consistent isEmitted
    obtain ⟨linearCode, linearized, isRoutine, free, grown⟩ := Generator.addRoutine_ok added
    have named : routine.name = signature.name := by rw [isRoutine]
    have advances : Advances before.generator.image after.generator.image := by
      rw [grown, ← sameGenerator]
      exact grows.advances.trans (advances_push _ _)
    have present : after.generator.image.routine? signature.name = some routine := by
      rw [grown, ← named]
      exact routine?_push (by rw [named]; exact free)
    refine ⟨⟨?_, ?_, ?_⟩, advances, routine, present, ?_⟩
    · refine ⟨?_, ?_, ?_⟩
      · rw [sameRun]
        exact emittedConsistent.generated.addRoutine added
      · rw [sameRun]
        exact emittedConsistent.calls
      · rw [grown]
        exact emittedConsistent.methods
    · intro other sameOwner isStarted
      rw [sameRun, sameStarted, started] at isStarted
      rcases List.mem_cons.mp isStarted with same | earlier
      · rw [Signature.eq_of_unit sameOwner same, present]
        rfl
      · obtain ⟨old, isOld⟩ := Option.isSome_iff_exists.mp (progress.started other sameOwner earlier)
        rw [advances.routines _ _ isOld]
        rfl
    · intro other member
      rw [grown] at member
      rcases Array.mem_push.mp member with old | rfl
      · rw [grows.routines, sameGenerator] at old
        exact progress.static other old
      · rw [isRoutine]
    · obtain ⟨addresses, placed⟩ := linearize_linearized emittedConsistent.generated.sound linearized
      have sameRoot : root = id := by
        have recorded : emitted.run.codeOf? signature.unit = some id := by
          rw [← code]
          simp only [Run.codeOf?, sameCode]
        rw [recorded] at isRoot
        exact (Option.some.inj isRoot).symm
      subst sameRoot
      refine ⟨by rw [isRoutine], by rw [isRoutine], by rw [isRoutine], ?_, ?_⟩
      · rw [sameRole, isRoutine]
        exact kind
      · refine ⟨_, _, _, ⟨_, _, body, ?_⟩, ?_, ?_, placed⟩
        · rw [sameArena]
          exact Arena.Extends.refl _
        · rw [isRoutine]
        · rw [grown]
          exact Retains.refl _

theorem compileMember_of_emitted {checked : CheckedClass} {signature : Signature} {member : Member}
    {run lowered : Run} {generator : Generator} {emission : Emission} {root : BlockIndex}
    (log : List Logging.Event) (found : checked.member? signature = some member)
    (lowering : Lowering.lowerMember member run = (lowered, .ok (some root)))
    (emitted : emitReachable lowered generator root = (emission, .ok ())) :
    ∃ middle, (compileMember checked signature).run ⟨run, generator, log⟩ =
      (addMemberRoutine signature).run ⟨emission.run, emission.generator, middle⟩ := by
  have first : (lowerMember member).run ⟨run, generator, log⟩ =
      (.ok (some root), ⟨lowered, generator, log⟩) := by
    rw [lowerMember_run, lowering]
  obtain ⟨middle, second⟩ : ∃ middle, (emitMember signature root).run ⟨lowered, generator, log⟩ =
      (.ok (), ⟨emission.run, emission.generator, middle⟩) := by
    rw [emitMember_run, emitted]
    exact ⟨_, rfl⟩
  refine ⟨middle, ?_⟩
  simp only [compileMember, found]
  rw [bind_of_ok first, bind_of_ok second]

theorem compileMember_of_ok {checked : CheckedClass} {signature : Signature} {member : Member}
    {run lowered : Run} {generator grown : Generator} {emission : Emission} {root : BlockIndex}
    {returns : Kind} {routine : Routine} (log : List Logging.Event)
    (found : checked.member? signature = some member)
    (lowering : Lowering.lowerMember member run = (lowered, .ok (some root)))
    (emitted : emitReachable lowered generator root = (emission, .ok ()))
    (kind : kindOf signature.role.resultKind = .ok returns)
    (recorded : emission.run.codeOf? signature.unit = some root)
    (added : emission.generator.addRoutine emission.run.arena signature.name 1 returns root =
      .ok (grown, routine)) :
    ∃ later, (compileMember checked signature).run ⟨run, generator, log⟩ =
      (.ok (), ⟨emission.run, grown, later⟩) := by
  obtain ⟨middle, before⟩ := compileMember_of_emitted log found lowering emitted
  rw [before, addMemberRoutine_run]
  simp only [kind, recorded, added, bind, Except.bind]
  exact ⟨_, rfl⟩

def HasRoutine (checked : CheckedClass) (image : ClassImage) (signature : Signature) : Prop :=
  ∀ member, checked.member? signature = some member →
    ∃ routine, image.routine? signature.name = some routine ∧
      RoutineFor member.role member.declaration.body image.constants routine

theorem HasRoutine.advanced {checked : CheckedClass} {before after : ClassImage}
    {signature : Signature} (has : HasRoutine checked before signature)
    (advances : Advances before after) : HasRoutine checked after signature := by
  intro member found
  obtain ⟨routine, present, routineFor⟩ := has member found
  exact ⟨routine, advances.routines _ _ present, routineFor.retained advances.retains⟩

theorem compileMembers_ok {checked : CheckedClass} {ref : ClassRef} {signatures : List Signature}
    {before after : Compilation} (progress : Progress ref before)
    (owned : ∀ signature ∈ signatures, signature.owner = ref ∧
      ∃ member, checked.member? signature = some member ∧ member.role = signature.role)
    (done : (compileMembers checked signatures).run before = (.ok (), after)) :
    Progress ref after ∧ Advances before.generator.image after.generator.image ∧
      ∀ signature ∈ signatures, HasRoutine checked after.generator.image signature := by
  induction signatures generalizing before with
  | nil =>
      obtain ⟨-, rfl⟩ := pure_ok done
      exact ⟨progress, Advances.refl _, by simp⟩
  | cons signature rest ih =>
      obtain ⟨_, middle, first, later⟩ := bind_ok done
      obtain ⟨⟨rfl, member, found, sameRole⟩, others⟩ := List.forall_mem_cons.mp owned
      obtain ⟨middleProgress, advances, routine, present, routineFor⟩ :=
        compileMember_ok progress found sameRole first
      obtain ⟨lastProgress, laterAdvances, routines⟩ := ih middleProgress others later
      refine ⟨lastProgress, advances.trans laterAdvances, List.forall_mem_cons.mpr ⟨?_, routines⟩⟩
      have has : HasRoutine checked middle.generator.image signature := by
        intro other isOther
        rw [found] at isOther
        obtain rfl := Option.some.inj isOther
        exact ⟨routine, present, routineFor⟩
      exact has.advanced laterAdvances

structure MainFor (owner testClass : String) (fixtures tests : List Signature)
    (constants : Array Constant) (routine : Routine) : Prop where
  params : routine.params = 1
  locals : routine.locals = mainLocals
  returns : routine.returns = .void
  code : ∃ bytes, routine.code.toList = bytes ∧
    Arranged constants (mainOrders owner testClass fixtures tests) bytes

theorem MainFor.hasPlace {owner testClass : String} {fixtures tests : List Signature}
    {constants : Array Constant} {routine : Routine}
    (mainFor : MainFor owner testClass fixtures tests constants routine) :
    Machine.Frame.hasPlace routine = true := by
  rw [Machine.Frame.hasPlace, mainFor.locals, mainFor.params]
  decide

theorem addMain_eq (owner : String) (fixtures tests : List Signature) (image : ClassImage) :
    addMain owner fixtures tests image =
      match (mainCode owner image.name fixtures tests).run { image, code := #[] } with
      | (.error problem, { image, .. }) => (image, .error problem)
      | (.ok (), { image, code }) =>
        match image.addRoutine?
          { name := mainName, isStatic := true, params := 1, locals := mainLocals, returns := .void
            code } with
        | some grown => (grown, .ok ())
        | none => (image, .error (.routineExists image.name mainName)) := (rfl)

theorem addMain_ok {owner : String} {fixtures tests : List Signature} {before after : ClassImage}
    (sound : PoolSound before.pool) (argumentless : Argumentless before.constants)
    (static : ∀ routine ∈ before.routines, routine.isStatic = true)
    (done : addMain owner fixtures tests before = (after, .ok ())) :
    Advances before after ∧ (∀ routine ∈ after.routines, routine.isStatic = true) ∧
      (∀ method, .ofMethod method ∈ after.constants →
        method.args = 0 ∨ method.owner = before.name) ∧
      ∃ routine, after.routine? mainName = some routine ∧
        MainFor owner before.name fixtures tests after.constants routine := by
  rw [addMain_eq] at done
  generalize assembled : (mainCode owner before.name fixtures tests).run
    { image := before, code := #[] } = result at done
  obtain ⟨problem | finished, ⟨image, code⟩⟩ := result
  · have failed := (Prod.mk.inj done).2
    simp at failed
  · rw [mainCode_eq] at assembled
    have fine : ∀ order ∈ mainOrders owner before.name fixtures tests, order.Fine before.name :=
      mainOrders_fine
    obtain ⟨grows, entries, bytes, sameBytes, arranged⟩ :=
      assembleAll_ok (show PoolSound _ from sound) fine assembled
    simp only [List.nil_append] at sameBytes
    simp only at done
    split at done
    · rename_i grown added
      simp only [ClassImage.addRoutine?] at added
      split at added
      · simp at added
      · rename_i free
        obtain rfl := Option.some.inj added
        obtain ⟨rfl, -⟩ := Prod.mk.inj done
        refine ⟨grows.advances.trans (advances_push _ _), ?_, ?_, _, routine?_push ?_, ?_⟩
        · intro routine member
          rcases Array.mem_push.mp member with old | rfl
          · rw [grows.routines] at old
            exact static routine old
          · rfl
        · intro method member
          rcases entries _ member with old | ⟨opcode, isOrder⟩
          · exact .inl (argumentless method old)
          · exact (fine _ isOrder).2 method rfl
        · exact Option.not_isSome_iff_eq_none.mp free
        · exact ⟨rfl, rfl, rfl, bytes, sameBytes, arranged⟩
    · have failed := (Prod.mk.inj done).2
      simp at failed

theorem compileMain_ok {owner : String} {fixtures tests : List Signature} {ref : ClassRef}
    {before after : Compilation} (progress : Progress ref before)
    (done : (compileMain owner fixtures tests).run before = (.ok (), after)) :
    addMain owner fixtures tests before.generator.image = (after.generator.image, .ok ()) := by
  obtain ⟨run, generator, log⟩ := before
  rw [compileMain_run] at done
  rcases added : addMain owner fixtures tests generator.image with ⟨image, problem | finished⟩
  · rw [added] at done
    have failed := (Prod.mk.inj done).1
    simp at failed
  · rw [added] at done
    have same := (Prod.mk.inj done).2
    subst same
    rfl

def Slots (fields : List Field) (slots : List FieldSlot) : Prop :=
  List.Forall₂ (fun field slot => slot.name = field.name ∧ kindOf field.type.kind = .ok slot.kind)
    fields slots

theorem targetImage_ok {owner : ClassType} {image : ClassImage}
    (done : targetImage owner = .ok image) :
    image.name = owner.name ∧ image.routines = #[] ∧ Slots owner.fields image.fields := by
  have slots : ∀ (fields : List Field) (slots : List FieldSlot),
      (fields.mapM fun field => do
        pure { name := field.name, kind := ← kindOf field.type.kind : FieldSlot } :
          Except AssemblyError (List FieldSlot)) = .ok slots → Slots fields slots := by
    intro fields
    induction fields with
    | nil =>
        intro slots mapped
        obtain rfl : [] = slots := by simpa [pure, Except.pure] using mapped
        exact .nil
    | cons field rest ih =>
        intro slots mapped
        rw [List.mapM_cons] at mapped
        cases kind : kindOf field.type.kind with
        | error problem => simp [kind, bind, Except.bind] at mapped
        | ok known =>
            simp only [kind, bind, Except.bind, pure, Except.pure] at mapped
            split at mapped
            · simp at mapped
            · rename_i others isRest
              simp only [Except.ok.injEq] at mapped
              subst mapped
              exact .cons ⟨rfl, kind⟩ (ih others isRest)
  simp only [targetImage, bind, Except.bind] at done
  split at done
  · simp at done
  · rename_i fields mapped
    simp only [pure, Except.pure, Except.ok.injEq] at done
    subst done
    exact ⟨rfl, rfl, slots _ _ mapped⟩

/-- The members of a role that are compiled, in the order of their declarations. -/
def included (declaration : ClassDeclaration) (selection : Selection) (role : Role) :
    List MemberDeclaration :=
  (declared declaration role).filter fun member =>
    selection.includes (signatureOf declaration role member)

theorem mem_included {declaration : ClassDeclaration} {selection : Selection} {role : Role} {member : MemberDeclaration} :
    member ∈ included declaration selection role ↔ member ∈ declared declaration role ∧
      selection.includes (signatureOf declaration role member) = true :=
  List.mem_filter

def signatures (declaration : ClassDeclaration) (selection : Selection) (role : Role) :
    List Signature :=
  (included declaration selection role).map (signatureOf declaration role)

theorem filter_signatures (declaration : ClassDeclaration) (selection : Selection) (role : Role) :
    selection.filter ((declared declaration role).map (signatureOf declaration role)) =
      signatures declaration selection role := by
  rw [Selection.filter, List.filter_map]
  rfl

/-- A program that a class was compiled to: the image of the class, and its test class with a routine
for each included member and the main routine. -/
structure Compiled (declaration : ClassDeclaration) (selection : Selection) (program : Program)
    (target image : ClassImage) (main : Routine) : Prop where
  entry : program.entry = { owner := image.name, routine := mainName }
  classes : program.classes = [target, image]
  targetName : target.name = declaration.name
  imageName : image.name = testClassName declaration.name
  slots : Slots (check declaration).type.fields target.fields
  static : AllStatic program
  methods : ∀ method, .ofMethod method ∈ image.constants →
    method.args = 0 ∨ method.owner = image.name
  isMain : image.routine? mainName = some main
  mainFor : MainFor declaration.name image.name
    (selection.filter (check declaration).type.fixtures)
    (selection.filter (check declaration).type.tests) image.constants main
  members : ∀ role, ∀ member ∈ declared declaration role,
    selection.includes (signatureOf declaration role member) = true →
    ∃ routine, image.routine? member.name = some routine ∧
      RoutineFor role member.body image.constants routine

theorem lift_ok {α : Type} {computed : Except AssemblyError α} {value : α}
    {start finish : Compilation}
    (done : (liftM computed : Compile α).run start = (.ok value, finish)) :
    computed = .ok value ∧ finish = start := by
  have same : (computed, start) = (.ok value, finish) := by
    cases computed <;> exact done
  obtain ⟨rfl, rfl⟩ := Prod.mk.inj same
  exact ⟨rfl, rfl⟩

theorem testClassName_ne (name : String) : name ≠ testClassName name := by
  intro same
  have lengths := congrArg String.length same
  simp [testClassName] at lengths

theorem logEvent_ok {event : Logging.Event} {before after : Compilation}
    (done : (logEvent event).run before = (.ok (), after)) :
    after.run = before.run ∧ after.generator = before.generator := by
  have same : (Except.ok (), { before with log := event :: before.log }) =
      ((.ok (), after) : Except AssemblyError Unit × Compilation) := done
  rw [← (Prod.mk.inj same).2]
  exact ⟨rfl, rfl⟩

theorem progress_new {ref : ClassRef} {name : String} {compilation : Compilation}
    (run : compilation.run = Run.new 0) (generator : compilation.generator = Generator.new name) :
    Progress ref compilation where
  consistent := by
    rw [run, generator]
    refine ⟨.start _ _, Arena.argumentless_empty 0, fun method member => ?_⟩
    exact absurd member (Array.not_mem_empty _)
  started := by
    intro signature _ isStarted
    simp [run, Run.new] at isStarted
  static := by
    intro routine member
    rw [generator] at member
    exact absurd member (Array.not_mem_empty _)

theorem classes_of_two {runId : String} {entry : EntryPoint} {target image : ClassImage}
    (different : target.name ≠ image.name) :
    (((Program.new runId entry).addClass target).addClass image).classes = [target, image] := by
  simp [Program.addClass, Program.new, different]

theorem compileClass_ok {declaration : ClassDeclaration} {runId : String} {selection : Selection}
    {program : Program} {before after : Compilation} (accepted : Accepted declaration)
    (freshRun : before.run = Run.new 0)
    (freshGenerator : before.generator = Generator.new (testClassName declaration.name))
    (done : (compileClass runId (check declaration) selection).run before = (.ok program, after)) :
    ∃ target image main, Compiled declaration selection program target image main := by
  have name : (check declaration).type.name = declaration.name := by
    rw [ClassType.name, accepted.ref]
  simp only [compileClass] at done
  obtain ⟨_, logged, isLogged, targetAndRest⟩ := bind_ok done
  obtain ⟨target, lifted, isTarget, membersAndRest⟩ := bind_ok targetAndRest
  obtain ⟨madeTarget, rfl⟩ := lift_ok isTarget
  obtain ⟨_, withFixtures, fixturesDone, testsAndRest⟩ := bind_ok membersAndRest
  obtain ⟨_, withTests, testsDone, mainAndRest⟩ := bind_ok testsAndRest
  obtain ⟨_, withMain, mainDone, rest⟩ := bind_ok mainAndRest
  have ended : (((Program.new runId
      { owner := withMain.generator.image.name, routine := mainName }).addClass target).addClass
        withMain.generator.image) = program := by
    obtain ⟨state, got, isGet, logAndRest⟩ := bind_ok rest
    obtain ⟨rfl, rfl⟩ : withMain = state ∧ withMain = got := by
      have same : (Except.ok withMain, withMain) = (Except.ok state, got) := isGet
      simpa using same
    obtain ⟨_, last, _, returned⟩ := bind_ok logAndRest
    exact (pure_ok returned).1.symm
  obtain ⟨targetName, targetRoutines, slots⟩ := targetImage_ok madeTarget
  have start : Progress { name := declaration.name, serial := 0 } lifted := by
    obtain ⟨sameRun, sameGenerator⟩ := logEvent_ok isLogged
    exact progress_new (sameRun.trans freshRun) (sameGenerator.trans freshGenerator)
  have known : ∀ role, ∀ signature ∈
      selection.filter ((declared declaration role).map (signatureOf declaration role)),
      signature.owner = { name := declaration.name, serial := 0 } ∧
        ∃ member, (check declaration).member? signature = some member ∧
          member.role = signature.role := by
    intro role signature included
    obtain ⟨member, isMember, rfl⟩ := List.mem_map.mp (List.mem_filter.mp included).1
    obtain ⟨resolution, scope, found⟩ := accepted.member? isMember
    exact ⟨rfl, _, found, rfl⟩
  have fixtures : (check declaration).type.fixtures =
      (declared declaration .fixture).map (signatureOf declaration .fixture) := accepted.fixtures
  have tests : (check declaration).type.tests =
      (declared declaration .test).map (signatureOf declaration .test) := accepted.tests
  rw [fixtures] at fixturesDone
  rw [tests] at testsDone
  obtain ⟨fixturesProgress, fixturesAdvance, fixtureRoutines⟩ :=
    compileMembers_ok start (known .fixture) fixturesDone
  obtain ⟨testsProgress, testsAdvance, testRoutines⟩ :=
    compileMembers_ok fixturesProgress (known .test) testsDone
  obtain ⟨mainAdvance, static, methods, main, isMain, mainFor⟩ :=
    addMain_ok testsProgress.consistent.generated.sound.pool testsProgress.consistent.methods
      testsProgress.static (compileMain_ok testsProgress mainDone)
  have imageName : withMain.generator.image.name = testClassName declaration.name := by
    rw [mainAdvance.name, testsAdvance.name, fixturesAdvance.name, (logEvent_ok isLogged).2,
      freshGenerator]
    rfl
  have different : target.name ≠ withMain.generator.image.name := by
    rw [targetName, name, imageName]
    exact testClassName_ne _
  have classes : program.classes = [target, withMain.generator.image] := by
    rw [← ended]
    exact classes_of_two different
  have entry : program.entry = { owner := withMain.generator.image.name, routine := mainName } := by
    rw [← ended]
    rfl
  rw [← mainAdvance.name, name] at mainFor
  rw [← mainAdvance.name] at methods
  refine ⟨target, withMain.generator.image, main, entry, classes, targetName.trans name, imageName,
    slots, ?_, methods, isMain, mainFor, ?_⟩
  · intro image member routine isRoutine
    rw [classes] at member
    rcases List.mem_cons.mp member with rfl | later
    · rw [targetRoutines] at isRoutine
      exact absurd isRoutine (Array.not_mem_empty _)
    · rw [List.mem_singleton.mp later] at isRoutine
      exact static routine isRoutine
  · intro role member isMember included
    have listed : signatureOf declaration role member ∈
        selection.filter ((declared declaration role).map (signatureOf declaration role)) :=
      List.mem_filter.mpr ⟨List.mem_map_of_mem isMember, included⟩
    obtain ⟨resolution, scope, found⟩ := accepted.member? isMember
    cases role with
    | fixture =>
        exact ((fixtureRoutines _ listed).advanced (testsAdvance.trans mainAdvance)) _ found
    | test => exact ((testRoutines _ listed).advanced mainAdvance) _ found

/-- A class without errors that could be compiled. -/
theorem compile_ok {declaration : ClassDeclaration} {runId : String} {selection : Selection}
    {program : Program} {log : List Logging.Event}
    (fine : (check declaration).diagnostics = [])
    (done : compile runId (check declaration) selection = (log, .ok program)) :
    ∃ target image main, Compiled declaration selection program target image main := by
  have accepted := accepted_of_no_errors fine
  have noErrors : (check declaration).hasErrors = false := by simp [CheckedClass.hasErrors, fine]
  have name : (check declaration).type.name = declaration.name := by
    rw [ClassType.name, accepted.ref]
  simp only [compile, noErrors, Bool.false_eq_true, if_false] at done
  rcases ran : (compileClass runId (check declaration) selection).run
    { run := Run.new 0, generator := Generator.new (testClassName (check declaration).type.name)
      log := [] } with ⟨result, finish⟩
  rw [ran] at done
  have result : result = .ok program := mapError_ok (Prod.mk.inj done).2
  subst result
  exact compileClass_ok accepted rfl (by rw [name]) ran

end Assay.Assembly
