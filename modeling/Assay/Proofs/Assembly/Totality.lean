import Assay.Proofs.Assembly.Stages

/-!
When a class without errors is compiled. The only limits are those of two-byte operands: the test
class must not have more than 65536 constants, and no jump may lead beyond address 65535. Both can be
told from the graphs of the bodies and the list of instructions of the main routine.
-/

namespace Assay.Assembly

open Bytecode Assay.Graph Lowering Syntax Typing

def Order.key? : Order → Option ConstantKey
  | plain _ _ => none
  | pooled _ constant => constant.key?

def orderKeys (orders : List Order) : List ConstantKey := orders.filterMap Order.key?

variable {testClass : String} {needed : ConstantKey → Prop}

def assembled (assemble : Assemble Unit) (before : Assembler) :
    ClassImage × Except AssemblyError Unit :=
  ((assemble.run before).2.image, (assemble.run before).1)

theorem append_copes (step : ClassImage → ClassImage × Except AssemblyError (List UInt8))
    {before : Assembler} (copes : Copes testClass needed (step before.image)) :
    Copes testClass needed (assembled (append step) before) := by
  obtain ⟨image, code⟩ := before
  rw [assembled, append_run]
  rcases copes with ⟨grown, bytes, done, fits⟩ | ⟨grown, problem, failed, wide, exceeds⟩
  · exact .inl ⟨grown, (), by simp only [done], fits⟩
  · exact .inr ⟨grown, problem, by simp only [failed], wide, exceeds⟩

theorem Order.assemble_copes {order : Order} {before : Assembler}
    (sendable : order.Sendable testClass) (fits : Fits testClass before.image needed) :
    Copes testClass (fun key => needed key ∨ key ∈ orderKeys [order])
      (assembled order.assemble before) := by
  cases order with
  | plain opcode operands =>
      refine append_copes (fun image => plainInstruction image opcode operands) ?_
      cases encoded : encode opcode operands with
      | error problem =>
          have encodable := sendable.encodable
          simp [Order.isEncodable, encoded, Except.isOk, Except.toBool] at encodable
      | ok bytes =>
          refine .inl ⟨before.image, bytes, ?_, ?_⟩
          · simp [plainInstruction, encoded, Except.mapError]
          · exact fits.congr fun key => by simp [orderKeys, Order.key?]
  | pooled opcode constant =>
      have usual := sendable.usual opcode constant rfl
      obtain ⟨key, keyed⟩ := usual.assembled.key
      have keys : orderKeys [.pooled opcode constant] = [key] := by simp [orderKeys, Order.key?, keyed]
      have wide : opcode.widths = [2] := by simpa [Order.isEncodable] using sendable.encodable
      simp only [keys, List.mem_singleton]
      exact append_copes (fun image => constantInstruction image opcode constant)
        (constantInstruction_copes wide usual keyed fits)

theorem assembleAll_copes {orders : List Order} {before : Assembler}
    (sendable : ∀ order ∈ orders, order.Sendable testClass)
    (fits : Fits testClass before.image needed) :
    Copes testClass (fun key => needed key ∨ key ∈ orderKeys orders)
      (assembled (assembleAll orders) before) := by
  induction orders generalizing before needed with
  | nil => exact .inl ⟨before.image, (), rfl, fits.congr fun key => by simp [orderKeys]⟩
  | cons order rest ih =>
      have keys : ∀ key, (needed key ∨ key ∈ orderKeys (order :: rest)) ↔
          (needed key ∨ key ∈ orderKeys [order]) ∨ key ∈ orderKeys rest := by
        intro key
        rw [or_assoc, ← List.mem_append, orderKeys, orderKeys, orderKeys, ← List.filterMap_append]
        rfl
      obtain ⟨sendableFirst, sendableRest⟩ := List.forall_mem_cons.mp sendable
      simp only [keys]
      rcases first : order.assemble.run before with ⟨problem | finished, middle⟩
      all_goals
        have copes := Order.assemble_copes sendableFirst fits
        simp only [assembled, first] at copes
      · rcases copes with ⟨image, value, same, -⟩ | ⟨image, reason, same, wide, exceeds⟩
        · simp at same
        · refine .inr ⟨image, reason, ?_, wide, exceeds.mono fun key isNeeded => .inl isNeeded⟩
          rw [assembled, assembleAll, bind_of_error first]
          exact same
      · rcases copes with ⟨image, value, same, middleFits⟩ | ⟨image, reason, same, -⟩
        · obtain ⟨rfl, -⟩ := Prod.mk.inj same
          have later := ih sendableRest middleFits
          rw [assembled, assembleAll, bind_of_ok first]
          exact later
        · simp at same

theorem addMain_outcome (owner : String) (fixtures tests : List Signature) {image : ClassImage}
    (named : image.name = testClass) (free : image.routine? mainName = none)
    (fits : Fits testClass image needed) :
    let orders := mainOrders owner testClass fixtures tests
    (∃ grown main, addMain owner fixtures tests image = (grown, .ok ()) ∧
        grown.routines = image.routines.push main ∧ main.name = mainName ∧ main.isStatic = true ∧
        MainFor owner testClass fixtures tests grown.constants main ∧ grown.name = testClass ∧
        Retains image.constants grown.constants ∧
        Fits testClass grown fun key => needed key ∨ key ∈ orderKeys orders) ∨
      ∃ grown problem, addMain owner fixtures tests image = (grown, .error problem) ∧
        TooWide problem ∧ Exceeds 65536 fun key => needed key ∨ key ∈ orderKeys orders := by
  subst named
  intro orders
  have start : Fits image.name (Assembler.mk image #[]).image needed := fits
  have sendable : ∀ order ∈ orders, order.Sendable image.name := mainOrders_sendable
  have copes := assembleAll_copes sendable start
  rw [addMain_eq, mainCode_eq]
  rcases ran : (assembleAll orders).run ⟨image, #[]⟩ with ⟨problem | finished, grown, code⟩
  all_goals simp only [assembled, orders, ran] at copes
  · rcases copes with ⟨_, value, same, -⟩ | ⟨_, reason, same, wide, exceeds⟩
    · simp at same
    · obtain ⟨rfl, sameProblem⟩ := Prod.mk.inj same
      obtain rfl := Except.error.inj sameProblem
      exact .inr ⟨grown, problem, rfl, wide, exceeds⟩
  · rcases copes with ⟨_, value, same, laterFits⟩ | ⟨_, reason, same, -⟩
    · obtain ⟨rfl, -⟩ := Prod.mk.inj same
      obtain ⟨grows, -, bytes, sameBytes, arranged⟩ := assembleAll_ok start.sound
        mainOrders_fine ran
      have stillFree : grown.routine? mainName = none := by
        rw [ClassImage.routine?, grows.routines]
        exact free
      let main : Routine :=
        { name := mainName, isStatic := true, params := 1, locals := mainLocals, returns := .void
          code }
      refine .inl ⟨{ grown with routines := grown.routines.push main }, main, ?_, ?_, rfl, rfl, ?_,
        grows.name, grows.retains, laterFits.keys, laterFits.usual⟩
      · simp only [ClassImage.addRoutine?, stillFree, Option.isSome_none,
          Bool.false_eq_true, if_false, main]
      · rw [grows.routines]
      · exact ⟨rfl, rfl, rfl, bytes, by simpa using sameBytes, arranged⟩
    · simp at same

theorem compileMembers_append (checked : CheckedClass) (first second : List Signature) :
    compileMembers checked (first ++ second) =
      (compileMembers checked first >>= fun _ => compileMembers checked second) := by
  induction first with
  | nil => simp [compileMembers]
  | cons signature rest ih => simp [compileMembers, ih]

theorem kindOf_kind (type : Ty) : ∃ kind, kindOf type.kind = .ok kind := by
  cases type <;> exact ⟨_, rfl⟩

theorem targetImage_succeeds (owner : ClassType) : ∃ image, targetImage owner = .ok image := by
  have slots : ∀ fields : List Field, ∃ slots : List FieldSlot, (fields.mapM fun field => do
      pure { name := field.name, kind := ← kindOf field.type.kind : FieldSlot } :
        Except AssemblyError (List FieldSlot)) = .ok slots := by
    intro fields
    induction fields with
    | nil => exact ⟨[], rfl⟩
    | cons field rest ih =>
        obtain ⟨kind, known⟩ := kindOf_kind field.type
        obtain ⟨slots, others⟩ := ih
        rw [List.mapM_cons, others, known]
        exact ⟨_, rfl⟩
  obtain ⟨fields, mapped⟩ := slots owner.fields
  exact ⟨{ ClassImage.new owner.name with fields }, by rw [targetImage, mapped]; rfl⟩

def bodyGraphs (declaration : ClassDeclaration) (selection : Selection) : List BodyGraph :=
  memberGraphs (check declaration)
    (signatures declaration selection .fixture ++ signatures declaration selection .test)
    (Arena.empty 0)

def mainOrdersOf (declaration : ClassDeclaration) (selection : Selection) : List Order :=
  mainOrders declaration.name (testClassName declaration.name)
    (signatures declaration selection .fixture) (signatures declaration selection .test)

def neededKeys (declaration : ClassDeclaration) (selection : Selection) : List ConstantKey :=
  (bodyGraphs declaration selection).flatMap BodyGraph.keys ++
    orderKeys (mainOrdersOf declaration selection)

/-- The test class needs an index above 65535, or a member has a jump to an address above 65535. -/
def Overflows (declaration : ClassDeclaration) (selection : Selection) : Prop :=
  65536 < (neededKeys declaration selection).toFinset.card ∨
    ∃ graph ∈ bodyGraphs declaration selection, FarJump graph.arena graph.root

instance (declaration : ClassDeclaration) (selection : Selection) :
    Decidable (Overflows declaration selection) :=
  inferInstanceAs (Decidable (_ ∨ ∃ graph ∈ bodyGraphs declaration selection, _))

theorem overflows_of_overflowing {declaration : ClassDeclaration} {selection : Selection}
    (overflowing : Overflowing (bodyGraphs declaration selection)) :
    Overflows declaration selection := by
  rcases overflowing with exceeds | far
  · refine .inl ((exceeds_iff_card _ _).mp (exceeds.mono fun key isNeeded => ?_))
    exact List.mem_append_left _ (List.mem_flatMap.mpr isNeeded)
  · exact .inr far

theorem mem_neededKeys (declaration : ClassDeclaration) (selection : Selection)
    (key : ConstantKey) :
    key ∈ neededKeys declaration selection ↔
      (∃ graph ∈ bodyGraphs declaration selection, key ∈ graph.keys) ∨
        key ∈ orderKeys (mainOrdersOf declaration selection) := by
  rw [neededKeys, List.mem_append, List.mem_flatMap]

variable {declaration : ClassDeclaration} {selection : Selection}

theorem fits_of_small (limit : Nat)
    (few : ((bodyGraphs declaration selection).flatMap BodyGraph.allKeys ++
      orderKeys (mainOrdersOf declaration selection)).length ≤ 65536)
    (small : ∀ graph ∈ bodyGraphs declaration selection,
      (∀ block ∈ graph.arena.blocks, codeSize block.code + 6 ≤ limit) ∧
        graph.arena.size * limit ≤ 65535) : ¬Overflows declaration selection := by
  rintro (many | ⟨graph, isGraph, far⟩)
  · obtain ⟨keys, distinct, long, needed⟩ := (exceeds_iff_card _ _).mpr many
    have inside : keys ⊆ (bodyGraphs declaration selection).flatMap BodyGraph.allKeys ++
        orderKeys (mainOrdersOf declaration selection) := by
      intro key isKey
      rcases List.mem_append.mp (needed key isKey) with isBody | isMain
      · obtain ⟨graph, isGraph, isGraphKey⟩ := List.mem_flatMap.mp isBody
        exact List.mem_append_left _
          (List.mem_flatMap.mpr ⟨graph, isGraph, graph.keys_subset isGraphKey⟩)
      · exact List.mem_append_right _ isMain
    have fewer := (List.subperm_of_subset distinct inside).length_le
    omega
  · obtain ⟨bounded, fits⟩ := small graph isGraph
    exact not_farJump bounded fits graph.root far

theorem included_compilable (accepted : Accepted declaration) {role : Role} {signature : Signature}
    (isIncluded : signature ∈ signatures declaration selection role) :
    Compilable (Declares declaration) { name := declaration.name, serial := 0 }
      (check declaration) signature := by
  obtain ⟨member, isMember, rfl⟩ := List.mem_map.mp isIncluded
  have isDeclared := (mem_included.mp isMember).1
  exact ⟨rfl, _, accepted.checkedMember? isDeclared, fun arena => builds_declared accepted isDeclared arena⟩

theorem included_distinct (accepted : Accepted declaration) (selection : Selection) :
    ((signatures declaration selection .fixture ++ signatures declaration selection .test).map
      Signature.name).Nodup := by
  have names : ∀ role, (signatures declaration selection role).map Signature.name =
      (included declaration selection role).map MemberDeclaration.name := by
    intro role
    rw [signatures, List.map_map]
    rfl
  rw [List.map_append, names, names, ← List.map_append]
  refine accepted.distinct.sublist (List.Sublist.map _ ?_)
  exact List.Sublist.append List.filter_sublist List.filter_sublist

theorem included_not_main (accepted : Accepted declaration) {role : Role} {signature : Signature}
    (isIncluded : signature ∈ signatures declaration selection role) : signature.name ≠ mainName := by
  obtain ⟨member, isMember, rfl⟩ := List.mem_map.mp isIncluded
  exact accepted.notMain member (mem_of_declared (mem_included.mp isMember).1)

structure Built (declaration : ClassDeclaration) (selection : Selection) (image : ClassImage)
    (parts : List Part) (main : Routine) : Prop where
  name : image.name = testClassName declaration.name
  members : parts.map Part.signature =
    signatures declaration selection .fixture ++ signatures declaration selection .test
  linked : ∀ part ∈ parts, part.Linked (Declares declaration) image.constants
  routines : image.routines.toList = parts.map Part.routine ++ [main]
  usual : ∀ entry ∈ image.constants, Usual image.name entry
  mainNamed : main.name = mainName
  mainStatic : main.isStatic = true
  mainFor : MainFor declaration.name image.name (signatures declaration selection .fixture)
    (signatures declaration selection .test) image.constants main

theorem compileMembers_declared (accepted : Accepted declaration) (selection : Selection)
    (log : List Logging.Event) :
    let members := signatures declaration selection .fixture ++ signatures declaration selection .test
    let before : Compilation :=
      { run := Run.new 0, generator := Generator.new (testClassName declaration.name), log }
    (∃ after parts, (compileMembers (check declaration) members).run before = (.ok (), after) ∧
        parts.map Part.signature = members ∧
        parts.map Part.graph = bodyGraphs declaration selection ∧
        Standing (Declares declaration) (testClassName declaration.name)
          { name := declaration.name, serial := 0 } parts after.run after.generator) ∨
      ∃ after problem,
        (compileMembers (check declaration) members).run before = (.error problem, after) ∧
        TooWide problem ∧ Overflowing (bodyGraphs declaration selection) := by
  intro members before
  have compilable : ∀ signature ∈ members, Compilable (Declares declaration)
      { name := declaration.name, serial := 0 } (check declaration) signature := by
    intro signature isIncluded
    rcases List.mem_append.mp isIncluded with isFixture | isTest
    · exact included_compilable accepted isFixture
    · exact included_compilable accepted isTest
  have standing : Standing (Declares declaration) (testClassName declaration.name)
      { name := declaration.name, serial := 0 } [] before.run before.generator :=
    standing_new _ _ _ 0
  rcases compileMembers_outcome standing compilable (included_distinct accepted selection) (by simp)
    with ⟨after, parts, done, sameSignatures, graphs, later⟩ | ⟨after, problem, failed, wide, overflowing⟩
  · exact .inl ⟨after, parts, done, sameSignatures, graphs, later⟩
  · exact .inr ⟨after, problem, failed, wide, overflowing⟩

theorem compileBodies_outcome (accepted : Accepted declaration) (selection : Selection)
    (log : List Logging.Event) :
    let fixtures := signatures declaration selection .fixture
    let tests := signatures declaration selection .test
    let bodies : Compile Unit := do
      compileMembers (check declaration) (fixtures ++ tests)
      compileMain declaration.name fixtures tests
    let before : Compilation :=
      { run := Run.new 0, generator := Generator.new (testClassName declaration.name), log }
    (¬Overflows declaration selection ∧ ∃ after parts main, bodies.run before = (.ok (), after) ∧
        Built declaration selection after.generator.image parts main) ∨
      (Overflows declaration selection ∧ ∃ after problem,
        bodies.run before = (.error problem, after) ∧ TooWide problem) := by
  intro fixtures tests bodies before
  rcases compileMembers_declared accepted selection log with
    ⟨middle, parts, done, sameSignatures, graphs, standing⟩ | ⟨after, problem, failed, wide, overflowing⟩
  · have fresh : ∀ part ∈ parts, part.signature.name ≠ mainName := by
      intro part isPart
      have isIncluded : part.signature ∈ fixtures ++ tests :=
        sameSignatures ▸ List.mem_map_of_mem isPart
      rcases List.mem_append.mp isIncluded with isFixture | isTest
      · exact included_not_main accepted isFixture
      · exact included_not_main accepted isTest
    have needs : ∀ key, ((∃ id, middle.run.visited.contains id = true ∧
        key ∈ blockKeys middle.run.arena id) ∨ key ∈ orderKeys (mainOrdersOf declaration selection)) ↔
          key ∈ neededKeys declaration selection := by
      intro key
      rw [standing.needed_iff, graphs, mem_neededKeys]
    have free : middle.generator.image.routine? mainName = none := standing.routine_free fresh rfl
    have running : bodies.run before = (compileMain declaration.name fixtures tests).run middle :=
      bind_of_ok done
    rcases addMain_outcome declaration.name fixtures tests standing.name free standing.fits with
      ⟨grown, main, added, routines, isMain, static, mainFor, named, retains, fits⟩ |
      ⟨grown, problem, failed, wide, exceeds⟩
    · refine .inl ⟨?_, ?_⟩
      · rintro (many | far)
        · exact (fits.congr needs).not_exceeds ((exceeds_iff_card _ _).mpr many)
        · exact standing.not_overflowing (graphs ▸ .inr far)
      · have finished : ∃ later, (compileMain declaration.name fixtures tests).run middle =
            (.ok (), ⟨middle.run, { middle.generator with image := grown }, later⟩) := by
          rw [compileMain_run, added]
          exact ⟨_, rfl⟩
        obtain ⟨later, finished⟩ := finished
        refine ⟨_, parts, main, running.trans finished,
          { name := named, members := sameSignatures, linked := ?_, routines := ?_, usual := ?_
            mainNamed := isMain, mainStatic := static, mainFor := ?_ }⟩
        · intro part isPart
          exact (standing.linked part isPart).retained retains
        · rw [routines, Array.toList_push, standing.routines]
        · rw [named]
          exact fits.usual
        · rw [named]
          exact mainFor
    · refine .inr ⟨.inl ((exceeds_iff_card _ _).mp (exceeds.mono fun key => (needs key).mp)), ?_⟩
      have stopped : ∃ after, (compileMain declaration.name fixtures tests).run middle =
          (.error problem, after) := by
        rw [compileMain_run, failed]
        exact ⟨_, rfl⟩
      obtain ⟨after, stopped⟩ := stopped
      exact ⟨after, problem, running.trans stopped, wide⟩
  · exact .inr ⟨overflows_of_overflowing overflowing, after, problem, bind_of_error failed, wide⟩

theorem compileClass_eq (runId : String) (checked : CheckedClass) (selection : Selection) :
    compileClass runId checked selection = (do
      logEvent (.debug "compilation started" [("class", .text checked.type.name)])
      let target ← (targetImage checked.type : Except AssemblyError ClassImage)
      (do
        compileMembers checked (selection.filter checked.type.fixtures ++
          selection.filter checked.type.tests)
        compileMain checked.type.name (selection.filter checked.type.fixtures)
          (selection.filter checked.type.tests))
      let { run, generator, .. } ← get
      logEvent (.debug "compilation finished" [("blocks", .number run.visitedCount)])
      pure (((Program.new runId { owner := generator.image.name, routine := mainName }).addClass
        target).addClass generator.image)) := by
  simp only [compileClass, compileMembers_append, bind_assoc]

theorem filter_checked (accepted : Accepted declaration) (selection : Selection) :
    selection.filter (check declaration).type.fixtures = signatures declaration selection .fixture ∧
      selection.filter (check declaration).type.tests = signatures declaration selection .test := by
  rw [accepted.fixtures, accepted.tests]
  exact ⟨filter_signatures declaration selection .fixture,
    filter_signatures declaration selection .test⟩

/-- A class without errors is compiled, or the limits are passed. -/
theorem compile_outcome (fine : (check declaration).diagnostics = []) (runId : String)
    (selection : Selection) :
    (¬Overflows declaration selection ∧ ∃ log program target image parts main,
        compile runId (check declaration) selection = (log, .ok program) ∧
        program.classes = [target, image] ∧ target.name = declaration.name ∧
        Slots (check declaration).type.fields target.fields ∧
        Built declaration selection image parts main) ∨
      (Overflows declaration selection ∧ ∃ log problem,
        compile runId (check declaration) selection = (log, .error (.assembly problem)) ∧
        TooWide problem) := by
  have accepted := accepted_of_no_errors fine
  have noErrors : (check declaration).hasErrors = false := by simp [CheckedClass.hasErrors, fine]
  have name : (check declaration).type.name = declaration.name := by
    rw [ClassType.name, accepted.ref]
  obtain ⟨fixtures, tests⟩ := filter_checked accepted selection
  obtain ⟨target, madeTarget⟩ := targetImage_succeeds (check declaration).type
  obtain ⟨targetName, -, slots⟩ := targetImage_ok madeTarget
  rw [name] at targetName
  have started : ∀ start : Compilation,
      (liftM (targetImage (check declaration).type) : Compile ClassImage).run start =
        (.ok target, start) := by
    intro start
    rw [madeTarget]
    rfl
  have logged : ∀ event start, (logEvent event).run start =
      (.ok (), { start with log := event :: start.log }) := fun _ _ => rfl
  simp only [compile, noErrors, Bool.false_eq_true, if_false, compileClass_eq, name, fixtures, tests]
  rw [bind_of_ok (logged _ _), bind_of_ok (started _)]
  rcases compileBodies_outcome accepted selection
      [.debug "compilation started" [("class", .text declaration.name)]] with
    ⟨fits, after, parts, main, done, built⟩ | ⟨overflows, after, problem, failed, wide⟩
  · have different : target.name ≠ after.generator.image.name := by
      rw [targetName, built.name]
      exact testClassName_ne _
    rw [bind_of_ok done]
    exact .inl ⟨fits, _, _, target, after.generator.image, parts, main, rfl, classes_of_two different,
      targetName, slots, built⟩
  · rw [bind_of_error failed]
    exact .inr ⟨overflows, _, problem, rfl, wide⟩

theorem operandRange_message (opcode : Opcode) (operand : Int) :
    (CompileError.assembly (.encoding (.operandRange opcode operand 2))).message =
      "operand " ++ toString operand ++ " of " ++ opcode.name ++ " does not fit in 2 byte(s)" := by
  have width : " does not fit in " ++ (toString 2 ++ " byte(s)") = " does not fit in 2 byte(s)" := by
    decide
  rw [← width, ← String.append_assoc, ← String.append_assoc]
  rfl

theorem compile_succeeds (fine : (check declaration).diagnostics = [])
    (fits : ¬Overflows declaration selection) (runId : String) :
    ∃ log program, compile runId (check declaration) selection = (log, .ok program) := by
  rcases compile_outcome fine runId selection with
    ⟨-, log, program, _, _, _, _, done, -⟩ | ⟨overflows, -⟩
  · exact ⟨log, program, done⟩
  · exact absurd overflows fits

def lightMember : MemberDeclaration :=
  { position := .unknown, name := "light", body := .assign .unknown "on" (.boolean .unknown true) }

def litMember : MemberDeclaration :=
  { position := .unknown, name := "lit", body := .assert .unknown (.field .unknown "on") }

/-- A class with a switch that its fixture turns on and its test looks at. -/
def lampClass : ClassDeclaration :=
  { position := .unknown, name := "Lamp"
    fields := [{ position := .unknown, name := "on", typeName := "boolean" }]
    fixtures := [lightMember], tests := [litMember] }

theorem lamp_compiled : ∃ log program,
    compile "lamp" (check lampClass) .everything = (log, .ok program) :=
  compile_succeeds rfl (fits_of_small 100 (by decide) (by decide)) "lamp"

/-- A class without errors is compiled exactly if its constants and addresses fit in two bytes. If they
do not, the message is about an operand. -/
theorem compile_total_up_to_operand_width (fine : (check declaration).diagnostics = [])
    (runId : String) (selection : Selection) :
    (¬Overflows declaration selection ∧
        ∃ log program, compile runId (check declaration) selection = (log, .ok program)) ∨
      (Overflows declaration selection ∧ ∃ (log : List Logging.Event) (problem : CompileError)
        (opcode : Opcode) (operand : Int),
        compile runId (check declaration) selection = (log, .error problem) ∧
        problem = .assembly (.encoding (.operandRange opcode operand 2)) ∧ 65535 < operand ∧
        problem.message = "operand " ++ toString operand ++ " of " ++ opcode.name ++
          " does not fit in 2 byte(s)") := by
  rcases compile_outcome fine runId selection with
    ⟨fits, log, program, _, _, _, _, done, -⟩ | ⟨overflows, log, problem, failed, wide⟩
  · exact .inl ⟨fits, log, program, done⟩
  · obtain ⟨opcode, operand, large, isProblem⟩ := wide
    refine .inr ⟨overflows, log, .assembly problem, opcode, operand, failed, congrArg _ isProblem, large, ?_⟩
    rw [isProblem]
    exact operandRange_message opcode operand

theorem compile_total_up_to_operand_width_lamp :
    (check lampClass).diagnostics = [] ∧ ¬Overflows lampClass .everything ∧
      ∃ log program, compile "lamp" (check lampClass) .everything = (log, .ok program) := by
  have fine : (check lampClass).diagnostics = [] := rfl
  obtain ⟨log, program, compiled⟩ := lamp_compiled
  rcases compile_total_up_to_operand_width fine "lamp" .everything with
    ⟨fits, done⟩ | ⟨-, otherLog, problem, opcode, operand, failed, -⟩
  · exact ⟨fine, fits, done⟩
  · have same := (Prod.mk.inj (compiled.symm.trans failed)).2
    exact absurd same (by simp)

end Assay.Assembly
