import Assay.Bytecode.Encoding
import Assay.Bytecode.Program
import Assay.Text.Comparison

/-!
Readable listings of programs: classes in natural order, routines in declaration order, one line per
instruction. Code that ends inside an instruction cannot be listed.
-/

namespace Assay.Bytecode

def listingLine (constants : Array Constant) (offset : Nat) (opcode : Opcode)
    (operands : List Nat) : String :=
  let start := Decimal.padLeft 4 (toString offset) ++ " " ++ opcode.name
  let shownOperands := String.join (operands.map fun operand => " " ++ toString operand)
  let note := match opcode.usesConstant, operands with
    | true, operand :: _ =>
      match constants[operand]? with
      | some constant => " (" ++ constant.shown ++ ")"
      | none => ""
    | _, _ => ""
  start ++ shownOperands ++ note

/-- The lines of the instructions from an offset on. Every line moves the offset forward, so the length
of the code is enough fuel. -/
def listFrom (constants : Array Constant) (code : Array UInt8) : Nat → Nat → Option (List String)
  | 0, _ => some []
  | fuel + 1, offset =>
    match decodeAt code offset with
    | .finished => some []
    | .truncated => none
    | .invalid byte =>
      let line := Decimal.padLeft 4 (toString offset) ++ " " ++ Opcode.byteName byte
      (listFrom constants code fuel (offset + 1)).map (line :: ·)
    | .instruction opcode operands next =>
      (listFrom constants code fuel next).map (listingLine constants offset opcode operands :: ·)

def ClassImage.listRoutine? (image : ClassImage) (routine : Routine) : Option (List String) :=
  listFrom image.constants routine.code (routine.code.size + 1) 0

def Routine.heading (routine : Routine) : String :=
  (if routine.isStatic then "static " else "") ++ "routine " ++ routine.name ++ "/" ++
    toString routine.params ++ ":" ++ routine.returns.text ++ " (locals " ++
    toString routine.locals ++ ")"

def ClassImage.listing? (image : ClassImage) : Option String := do
  let fields := image.fields.map fun field =>
    "  field " ++ field.name ++ " " ++ field.kind.text ++ "\n"
  let routines ← image.routines.toList.mapM fun routine => do
    let lines ← image.listRoutine? routine
    pure ("  " ++ routine.heading ++ "\n" ++ String.join (lines.map fun line => "    " ++ line ++ "\n"))
  pure ("class " ++ image.name ++ "\n" ++ String.join fields ++ String.join routines)

def Program.listing? (program : Program) : Option String := do
  let names := Text.naturalSort (program.classes.map ClassImage.name)
  let classes ← (names.filterMap program.class?).mapM fun image => do
    pure ("\n" ++ (← image.listing?))
  pure ("program " ++ program.id ++ " (entry " ++ program.entry.owner ++ "." ++
    program.entry.routine ++ ")\n" ++ String.join classes)

end Assay.Bytecode
