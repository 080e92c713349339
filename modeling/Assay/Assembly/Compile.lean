import Assay.Assembly.Harness
import Assay.Assembly.Selection
import Assay.Logging.Event
import Assay.Typing.CheckedClass

/-!
Compilation of a checked class to a program of two classes: the class itself with its fields, and its
test class with a routine for each selected fixture and test and the main routine. The log of a
compilation is part of its result, also when it fails.
-/

namespace Assay.Assembly

open Bytecode Assay.Graph Logging Typing

inductive CompileError
  | rejected (owner : String) (diagnostics : List Diagnostic)
  | assembly (cause : AssemblyError)
deriving DecidableEq, Repr

def CompileError.message : CompileError → String
  | rejected owner diagnostics =>
    owner ++ " cannot be compiled:\n" ++ (Diagnostic.report diagnostics).getD ""
  | assembly cause => cause.message

/-- The state of a compilation. The newest log message comes first. -/
structure Compilation where
  run : Run
  generator : Generator
  log : List Event

abbrev Compile := ExceptT AssemblyError (StateM Compilation)

def logEvent (event : Event) : Compile Unit := fun { run, generator, log } =>
  (.ok (), { run, generator, log := event :: log })

def blockEvent (arena : Arena) (id : BlockIndex) : Event :=
  let summary := summaryOf arena id
  .debug "block materialized"
    [("block", .number summary.id.index), ("instructions", .number summary.instructions)]

def loweredEvent (signature : Signature) (blocks : Nat) : Event :=
  .debug (signature.role.text ++ " translated")
    [(signature.role.text, .text signature.qualifiedName), ("blocks", .number blocks)]

def emitMember (signature : Signature) (root : BlockIndex) : Compile Unit :=
  fun { run, generator, log } =>
    let (emission, result) := emitReachable run generator root
    let { run, generator, handed } := emission
    let log := handed.reverse.foldl (fun log id => blockEvent run.arena id :: log) log
    match result with
    | .error problem => (.error problem, { run, generator, log })
    | .ok () =>
      (.ok (), { run, generator, log := loweredEvent signature handed.length :: log })

def lowerMember (member : Member) : Compile (Option BlockIndex) := fun { run, generator, log } =>
  match Lowering.lowerMember member run with
  | (run, .error cause) => (.error (.member cause), { run, generator, log })
  | (run, .ok root) => (.ok root, { run, generator, log })

def addMemberRoutine (signature : Signature) : Compile Unit := fun { run, generator, log } =>
  let added : Except AssemblyError (Generator × Routine) := do
    let returns ← kindOf signature.role.resultKind
    match run.codeOf? signature.unit with
    | none => throw (.noCode signature.unit)
    | some root => generator.addRoutine run.arena signature.name 1 returns root
  match added with
  | .error problem => (.error problem, { run, generator, log })
  | .ok (generator, routine) =>
    let event := Event.debug "routine generated"
      [("class", .text generator.image.name), ("routine", .text routine.name),
        ("size", .number routine.code.size)]
    (.ok (), { run, generator, log := event :: log })

def compileMember (checked : CheckedClass) (signature : Signature) : Compile Unit := do
  match checked.member? signature with
  | none => throw (.noCode signature.unit)
  | some member =>
    match ← lowerMember member with
    | some root => emitMember signature root
    | none => pure ()
    addMemberRoutine signature

def compileMembers (checked : CheckedClass) : List Signature → Compile Unit
  | [] => pure ()
  | signature :: rest => do
    compileMember checked signature
    compileMembers checked rest

def compileMain (owner : String) (fixtures tests : List Signature) : Compile Unit :=
  fun { run, generator, log } =>
    match addMain owner fixtures tests generator.image with
    | (image, .error problem) => (.error problem, { run, generator := { generator with image }, log })
    | (image, .ok ()) =>
      let event := Event.debug "main generated"
        [("class", .text image.name), ("routine", .text mainName),
          ("tests", .number tests.length), ("fixtures", .number fixtures.length)]
      (.ok (), { run, generator := { generator with image }, log := event :: log })

def targetImage (owner : ClassType) : Except AssemblyError ClassImage := do
  let fields ← owner.fields.mapM fun field => do
    pure { name := field.name, kind := ← kindOf field.type.kind : FieldSlot }
  pure { ClassImage.new owner.name with fields }

def compileClass (runId : String) (checked : CheckedClass) (selection : Selection) :
    Compile Program := do
  let owner := checked.type
  logEvent (.debug "compilation started" [("class", .text owner.name)])
  let target ← (targetImage owner : Except AssemblyError ClassImage)
  let fixtures := selection.filter owner.fixtures
  let tests := selection.filter owner.tests
  compileMembers checked fixtures
  compileMembers checked tests
  compileMain owner.name fixtures tests
  let { run, generator, .. } ← get
  let entry : EntryPoint := { owner := generator.image.name, routine := mainName }
  logEvent (.debug "compilation finished" [("blocks", .number run.visitedCount)])
  pure (((Program.new runId entry).addClass target).addClass generator.image)

/-- Compiles a class; the log messages come in order. -/
def compile (runId : String) (checked : CheckedClass) (selection : Selection) :
    List Event × Except CompileError Program :=
  if checked.hasErrors then
    ([], .error (.rejected checked.type.name checked.diagnostics))
  else
    let start : Compilation :=
      { run := Run.new 0, generator := Generator.new (testClassName checked.type.name), log := [] }
    let (result, finish) := (compileClass runId checked selection).run start
    let tagged := finish.log.reverse.map fun event =>
      { event with fields := event.fields ++ [("run", .text runId)] }
    (tagged.map (Event.fromSource "codegen"), result.mapError .assembly)

end Assay.Assembly
