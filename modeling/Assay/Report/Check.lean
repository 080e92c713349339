import Assay.Description.ClassDescription
import Assay.Report.Json
import Assay.Typing.CheckedClass

/-!
Results of checking as structured reports.
-/

namespace Assay.Report

def positionReport (position : Position) : Json :=
  .object
    [("sourceName", .string position.source), ("line", .ofInt position.line.toInt),
      ("column", .ofInt position.column.toInt)]

def messageReport (position : Position) (message : String) : Json :=
  .object [("position", positionReport position), ("message", .string message)]

def problemReport (path : String) (problem : Description.Problem) : Json :=
  .object
    [("file", .string path),
      ("decodingError", messageReport problem.position problem.cause.message),
      ("errors", .array [])]

def checkReport (path : String) (checked : Typing.CheckedClass) : Json :=
  .object
    [("file", .string path), ("class", .string checked.type.name),
      ("errors", .array (checked.diagnostics.map fun diagnostic =>
        messageReport diagnostic.position diagnostic.message))]

end Assay.Report
