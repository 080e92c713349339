import Assay.Description.Entry
import Assay.Syntax.Expression
import Assay.Text.Reading

/-!
Descriptions of expressions: a mapping with one key, which names the kind of the expression and gives
it its position.
-/

namespace Assay.Description

open Document (Node Place)
open Syntax (Expression BinaryOperator ComparisonOperator)

def binaryOperator? (key : String) : Option BinaryOperator :=
  [("add", .add), ("sub", .sub), ("mul", .mul)].lookup key

def comparisonOperator? (key : String) : Option ComparisonOperator :=
  [("lt", .lessThan), ("le", .lessOrEqual), ("gt", .greaterThan), ("ge", .greaterOrEqual),
    ("eq", .equal), ("ne", .notEqual)].lookup key

def connective? (key : String) : Option (Position → Expression → Expression → Expression) :=
  if key = "and" then some .and
  else if key = "or" then some .or
  else
    match binaryOperator? key, comparisonOperator? key with
    | some operator, _ => some fun position => .binary position operator
    | none, some operator => some fun position => .comparison position operator
    | none, none => none

def decodeInteger : Node → Decode Int64
  | .scalar place (.integer value) =>
    if Text.fitsInt64 value then .ok (Int64.ofInt value) else complain place .integerOutOfRange
  | node => complain node.place .notAnInteger

def decodeBoolean : Node → Decode Bool
  | .scalar _ (.boolean value) => .ok value
  | node => complain node.place .notABoolean

def notTwoOperands {α : Type} (operator : String) (node : Node) : Decode α := do
  let items ← decodeItems ("operands of " ++ operator) node
  complain node.place (.operandCount operator items.length)

def decodeExpression (source : String) : Node → Decode Expression
  | .mapping _ [(name, value)] => do
    let key ← decodeString "key" name
    let position := positionOf source name.place
    if key = "int" then
      pure (.int position (← decodeInteger value))
    else if key = "bool" then
      pure (.boolean position (← decodeBoolean value))
    else if key = "field" then
      pure (.field position (← decodeString "field name" value))
    else if key = "not" then
      pure (.not position (← decodeExpression source value))
    else
      match connective? key with
      | none => complain name.place (.unknownExpression key)
      | some connect =>
        match value with
        | .sequence _ [left, right] => do
          let first ← decodeExpression source left
          let second ← decodeExpression source right
          pure (connect position first second)
        | _ => notTwoOperands key value
  | node => notOneEntry "expression" node

end Assay.Description
