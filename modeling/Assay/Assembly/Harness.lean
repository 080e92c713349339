import Assay.Assembly.Linearize

/-!
The main routine of a test class. It runs every test on a fresh instance to which every fixture has
been applied, prints the outcome and the time of each test, and then the numbers of passed and failed
tests with the total time.
-/

namespace Assay.Assembly

open Bytecode Assay.Graph Typing

def failuresLocal : Int := 1

def totalStartLocal : Int := 2

def testStartLocal : Int := 3

/-- The arguments, the number of failures and the two start times. -/
def mainLocals : Int := 4

def nanosPerMilli : Float := 1000000

/-- The class that receives the constants and the code so far, or the first failure. -/
structure Assembler where
  image : ClassImage
  code : Array UInt8

abbrev Assemble := ExceptT AssemblyError (StateM Assembler)

def append (step : ClassImage → ClassImage × Except AssemblyError (List UInt8)) : Assemble Unit :=
  fun { image, code } =>
    match step image with
    | (image, .ok bytes) => (.ok (), { image, code := code ++ bytes.toArray })
    | (image, .error problem) => (.error problem, { image, code })

def emit (opcode : Opcode) (operands : List Int) : Assemble Unit :=
  append fun image => plainInstruction image opcode operands

def emitConstant (opcode : Opcode) (constant : Constant) : Assemble Unit :=
  append fun image => constantInstruction image opcode constant

def outputRef : MethodRef :=
  { owner := outputMethod.owner, name := outputMethod.name, args := 0, returns := .void }

def printString (text : String) : Assemble Unit := do
  emitConstant .pushConstant (.ofString text)
  emitConstant .invokeVirtual (.ofMethod outputRef)

def printElapsed (startLocal : Int) : Assemble Unit := do
  printString " [ "
  emit .nanoTime []
  emit .load [startLocal]
  emit .sub []
  emit .intToFloat []
  emitConstant .pushConstant (.ofFloat nanosPerMilli)
  emit .floatDiv []
  emit .print []
  printString " ms ]\n"

def callMember (testClass : String) (signature : Signature) : Assemble Unit :=
  emitConstant .invokeStatic
    (.ofMethod { owner := testClass, name := signature.name, args := 1
                 returns := match signature.role with
                   | .fixture => .void
                   | .test => .int })

def applyFixtures (testClass : String) : List Signature → Assemble Unit
  | [] => pure ()
  | fixture :: rest => do
    emit .dup []
    callMember testClass fixture
    applyFixtures testClass rest

def runTest (owner testClass : String) (fixtures : List Signature) (test : Signature) :
    Assemble Unit := do
  emit .nanoTime []
  emit .store [testStartLocal]
  printString ("\t- " ++ test.name ++ ": ")
  emitConstant .new (.ofString owner)
  applyFixtures testClass fixtures
  callMember testClass test
  emit .load [failuresLocal]
  emit .add []
  emit .store [failuresLocal]
  printElapsed testStartLocal

def runTestsOf (owner testClass : String) (fixtures : List Signature) :
    List Signature → Assemble Unit
  | [] => pure ()
  | test :: rest => do
    runTest owner testClass fixtures test
    runTestsOf owner testClass fixtures rest

def mainCode (owner testClass : String) (fixtures tests : List Signature) : Assemble Unit := do
  emit .nanoTime []
  emit .store [totalStartLocal]
  printString ("Test execution for class " ++ owner ++ ":\n")
  emitConstant .pushConstant (.ofInt 0)
  emit .store [failuresLocal]
  runTestsOf owner testClass fixtures tests
  emitConstant .pushConstant (.ofInt (Int64.ofNat tests.length))
  emit .load [failuresLocal]
  emit .sub []
  emit .print []
  printString " passed, "
  emit .load [failuresLocal]
  emit .print []
  printString " failed "
  printElapsed totalStartLocal
  emit .ret []

def addMain (owner : String) (fixtures tests : List Signature) (image : ClassImage) :
    ClassImage × Except AssemblyError Unit :=
  let testClass := image.name
  match (mainCode owner testClass fixtures tests).run { image, code := #[] } with
  | (.error problem, { image, .. }) => (image, .error problem)
  | (.ok (), { image, code }) =>
    let routine : Routine :=
      { name := mainName, isStatic := true, params := 1, locals := mainLocals, returns := .void
        code }
    match image.addRoutine? routine with
    | some grown => (grown, .ok ())
    | none => (image, .error (.routineExists image.name mainName))

end Assay.Assembly
