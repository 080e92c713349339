import Assay.Bytecode.Encoding
import Assay.Bytecode.Program
import Assay.Graph.Run
import Assay.Lowering.Member

/-!
The backend of a compilation run for one class: every block is lowered to bytecode once, and routines
are assembled from the lowered blocks. An operation that fails keeps the constants added before.
-/

namespace Assay.Assembly

open Bytecode Assay.Graph

inductive AssemblyError
  | materializedTwice (id : BlockId)
  | danglingBlock (source target : BlockSummary)
  | misplacedReturn (block : BlockSummary)
  | missingReturn (block : BlockSummary)
  | notMaterialized (block : BlockSummary)
  | unknownOperation (operation : Operation)
  | unknownKind (kind : ValueKind)
  | noJump (cond : Cond)
  | encoding (cause : EncodingError)
  | routineExists (owner name : String)
  | noCode (unit : UnitName)
  | arena (cause : ArenaError)
  | member (cause : Lowering.MemberError)
deriving DecidableEq, Repr

def AssemblyError.message : AssemblyError → String
  | materializedTwice id => "block " ++ id.text ++ " materialized twice"
  | danglingBlock source target =>
    "successor has not been visited: " ++ source.text ++ " -> " ++ target.text
  | misplacedReturn block => "return in the middle of a block: " ++ block.text
  | missingReturn block => "exit block does not end with a return: " ++ block.text
  | notMaterialized block => "block has not been materialized: " ++ block.text
  | unknownOperation operation => "unknown operation: " ++ operation.text
  | unknownKind kind => "unknown value kind " ++ kind.text
  | noJump cond => "no jump for condition " ++ cond.text
  | encoding cause => cause.message
  | routineExists owner name => "routine " ++ owner ++ "." ++ name ++ " already exists"
  | noCode unit => unit.qualified ++ " has not been translated"
  | arena cause => cause.message
  | member cause => cause.message

def kindOf : ValueKind → Except AssemblyError Kind
  | .void => .ok .void
  | .int => .ok .int
  | .float => .ok .float
  | .reference => .ok .ref
  | kind => .error (.unknownKind kind)

/-- The class being generated and the code of its blocks, without the transfers between them. -/
structure Generator where
  image : ClassImage
  lowered : Std.HashMap BlockIndex (Array UInt8)

namespace Generator

def new (name : String) : Generator := { image := ClassImage.new name, lowered := {} }

end Generator

def constantInstruction (image : ClassImage) (opcode : Opcode) (constant : Constant) :
    ClassImage × Except AssemblyError (List UInt8) :=
  let (grown, index) := image.intern constant
  (grown, (encode opcode [(index : Int)]).mapError .encoding)

def plainInstruction (image : ClassImage) (opcode : Opcode) (operands : List Int) :
    ClassImage × Except AssemblyError (List UInt8) :=
  (image, (encode opcode operands).mapError .encoding)

def arithmeticOpcode : Arithmetic → Opcode
  | .add => .add
  | .sub => .sub
  | .mul => .mul

def lowerInstruction (image : ClassImage) :
    Instruction → ClassImage × Except AssemblyError (List UInt8)
  | .const value => constantInstruction image .pushConstant (.ofInt value)
  | .newString text => constantInstruction image .pushConstant (.ofString text)
  | .load slot => plainInstruction image .load [slot]
  | .getField _ field => constantInstruction image .getField (.ofString field)
  | .putField _ field => constantInstruction image .setField (.ofString field)
  | .arithmetic operator => plainInstruction image (arithmeticOpcode operator) []
  | .virtualCall owner method args returns =>
    match kindOf returns with
    | .error problem => (image, .error problem)
    | .ok kind =>
      constantInstruction image .invokeVirtual
        (.ofMethod { owner, name := method, args, returns := kind })
  | .ret kind => plainInstruction image (if kind = .void then .ret else .retValue) []
  | .unknown code => (image, .error (.unknownOperation (.unknown code)))

/-- Lowers instructions one after the other. A return is allowed only at the end of an exit block. -/
def lowerCode (summary : BlockSummary) (isExit : Bool) :
    List Instruction → ClassImage → Array UInt8 → ClassImage × Except AssemblyError (Array UInt8)
  | [], image, bytes => (image, .ok bytes)
  | instruction :: rest, image, bytes =>
    if instruction.isReturn && !(rest.isEmpty && isExit) then
      (image, .error (.misplacedReturn summary))
    else
      match lowerInstruction image instruction with
      | (grown, .error problem) => (grown, .error problem)
      | (grown, .ok encoded) => lowerCode summary isExit rest grown (bytes ++ encoded.toArray)

def endsWithReturn (code : List Instruction) : Bool :=
  match code.getLast? with
  | some instruction => instruction.isReturn
  | none => false

def summaryOf (arena : Arena) (id : BlockIndex) : BlockSummary :=
  match arena.get? id with
  | some block => block.summary
  | none => { id, instructions := 0, successors := 0 }

/-- Lowers a block. Each block is lowered once, after its successors were visited. -/
def Generator.materialize (generator : Generator) (arena : Arena)
    (visited : Std.HashSet BlockIndex) (id : BlockIndex) : Generator × Except AssemblyError Unit :=
  let { image, lowered } := generator
  let block := (arena.get? id).getD { id, code := [], transfer := .exit, incoming := 0 }
  let summary := block.summary
  if lowered.contains id then ({ image, lowered }, .error (.materializedTwice id))
  else
    match block.successors.find? fun next => !visited.contains next with
    | some next => ({ image, lowered }, .error (.danglingBlock summary (summaryOf arena next)))
    | none =>
      match lowerCode summary block.isExit block.code image #[] with
      | (image, .error problem) => ({ image, lowered }, .error problem)
      | (image, .ok bytes) =>
        if block.isExit && !endsWithReturn block.code then
          ({ image, lowered }, .error (.missingReturn summary))
        else ({ image, lowered := lowered.insert id bytes }, .ok ())

structure Emission where
  run : Run
  generator : Generator
  handed : List BlockIndex

/-- Follows the trace of a traversal: entered blocks count as visited, left blocks are lowered. -/
def followTrace : List Visit → Emission → Emission × Except AssemblyError Unit
  | [], emission => (emission, .ok ())
  | .enter id :: rest, { run, generator, handed } =>
    followTrace rest { run := run.enter id, generator, handed }
  | .leave id :: rest, { run, generator, handed } =>
    match generator.materialize run.arena run.visited id with
    | (generator, .error problem) => ({ run, generator, handed }, .error problem)
    | (generator, .ok ()) => followTrace rest { run, generator, handed := id :: handed }

/-- Lowers every block that can be reached from `root` and has not been visited in the run. -/
def emitReachable (run : Run) (generator : Generator) (root : BlockIndex) :
    Emission × Except AssemblyError Unit :=
  followTrace (run.pending root) { run, generator, handed := [] }

def emitReachableFrom (run : Run) (generator : Generator) (root : BlockRef) :
    Emission × Except AssemblyError Unit :=
  if run.arena.owns root then emitReachable run generator root.index
  else ({ run, generator, handed := [] }, .error (.arena (.foreignBlock root.id)))

end Assay.Assembly
