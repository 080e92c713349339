import Assay.Bytecode.Program
import Assay.Report.Json
import Assay.Text.Alphabet

/-!
Compiled programs as structured reports. Classes are sorted by name; components of a constant that are
zero are left out.
-/

namespace Assay.Report

open Bytecode

def methodReport (method : MethodRef) : Json :=
  .object
    [("class", .string method.owner), ("name", .string method.name), ("args", .ofInt method.args),
      ("returns", .ofInt method.returns.toCode.toNat)]

def constantReport (constant : Constant) : Json :=
  .object (
    [("kind", Json.ofInt constant.kind.toCode.toNat)] ++
    (if constant.int = 0 then [] else [("int", Json.ofInt constant.int.toInt)]) ++
    (if constant.float == 0 then []
      else [("float", Json.number (Decimal.Format.report.float constant.float))]) ++
    (if constant.text = "" then [] else [("str", Json.string constant.text)]) ++
    constant.method.toList.map fun method => ("method", methodReport method))

def fieldReport (field : FieldSlot) : Json :=
  .object [("name", .string field.name), ("kind", .ofInt field.kind.toCode.toNat)]

def routineReport (routine : Routine) : Json :=
  .object
    [("name", .string routine.name), ("static", .bool routine.isStatic),
      ("params", .ofInt routine.params), ("locals", .ofInt routine.locals),
      ("returns", .ofInt routine.returns.toCode.toNat),
      ("instructions", .string (Text.base64 routine.code))]

def imageReport (image : ClassImage) : Json :=
  .object
    [("name", .string image.name),
      ("fields", .listOrNull (image.fields.map fieldReport)),
      ("constants", .listOrNull (image.constants.toList.map constantReport)),
      ("routines", .listOrNull (image.routines.toList.map routineReport))]

def programReport (program : Program) : Json :=
  let sorted := program.classes.mergeSort fun left right => left.name ≤ right.name
  .object
    [("id", .string program.id),
      ("entry", .object
        [("class", .string program.entry.owner), ("routine", .string program.entry.routine)]),
      ("classes", .object (sorted.map fun image => (image.name, imageReport image)))]

end Assay.Report
