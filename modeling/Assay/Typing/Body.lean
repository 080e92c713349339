import Assay.Syntax.Command
import Assay.Typing.Checker

/-!
Checking of expressions and commands. Errors are reported and checking goes on, so every part of a
body is always checked.
-/

namespace Assay.Typing

open Syntax

/-- The static type of an expression. An unknown field counts as an integer, which keeps down the
number of errors that follow from it. -/
def typeOf (checker : Checker) : Expression → Ty
  | .int _ _ => .int
  | .boolean _ _ => .boolean
  | .field _ name => ((checker.field? name).map Field.type).getD .int
  | .binary _ _ _ _ => .int
  | _ => .boolean

/-- What is wrong with comparing two operands. The right one is not looked at if the left one cannot
be compared. -/
def comparisonProblems (checker : Checker) (operator : ComparisonOperator)
    (left right : Expression) : List Diagnostic :=
  let leftType := typeOf checker left
  let rightType := typeOf checker right
  if leftType = .boolean && operator.isEquality then
    Checker.requireBoolean right.position rightType
  else if leftType ≠ .int then
    [{ position := left.position
       message := "operator " ++ operator.text ++ " cannot compare values of type " ++
         leftType.text }]
  else Checker.requireAssignable right.position rightType .int

def expressionProblems (checker : Checker) : Expression → List Diagnostic
  | .int _ _ => []
  | .boolean _ _ => []
  | .field position name => checker.fieldProblems position name
  | .binary _ _ left right =>
    expressionProblems checker left ++
    Checker.requireAssignable left.position (typeOf checker left) .int ++
    expressionProblems checker right ++
    Checker.requireAssignable right.position (typeOf checker right) .int
  | .comparison _ operator left right =>
    expressionProblems checker left ++ expressionProblems checker right ++
    comparisonProblems checker operator left right
  | .not _ operand =>
    expressionProblems checker operand ++
    Checker.requireBoolean operand.position (typeOf checker operand)
  | .and _ left right =>
    expressionProblems checker left ++
    Checker.requireBoolean left.position (typeOf checker left) ++
    expressionProblems checker right ++
    Checker.requireBoolean right.position (typeOf checker right)
  | .or _ left right =>
    expressionProblems checker left ++
    Checker.requireBoolean left.position (typeOf checker left) ++
    expressionProblems checker right ++
    Checker.requireBoolean right.position (typeOf checker right)

def conditionProblems (checker : Checker) (condition : Expression) : List Diagnostic :=
  expressionProblems checker condition ++
  Checker.requireBoolean condition.position (typeOf checker condition)

/-- Checks a command; the first component is the checker for the commands that follow it. -/
def checkCommand (checker : Checker) : Command → Checker × List Diagnostic
  | .skip _ => (checker, [])
  | .seq _ first second =>
    let (next, firstProblems) := checkCommand checker first
    let (last, secondProblems) := checkCommand next second
    (last, firstProblems ++ secondProblems)
  | .ifThen _ condition yes =>
    (checker, conditionProblems checker condition ++ (checkCommand checker yes).2)
  | .ifElse _ condition yes no =>
    (checker, conditionProblems checker condition ++ (checkCommand checker yes).2 ++
      (checkCommand checker no).2)
  | .loop _ condition body =>
    (checker, conditionProblems checker condition ++ (checkCommand checker body).2)
  | .ret position =>
    (checker, if checker.returnType = .void then []
      else [{ position, message := "return is only permitted in routines returning void" }])
  | .assign position name value =>
    (checker, expressionProblems checker value ++ checker.fieldProblems position name ++
      match checker.field? name with
      | some field => Checker.requireAssignable value.position (typeOf checker value) field.type
      | none => [])
  | .assert position condition =>
    (checker, (if checker.assertPermitted then []
      else [{ position, message := "assert only permitted inside a test" }]) ++
      conditionProblems checker condition)

def deadCodeProblems (position : Position) (body : Command) : List Diagnostic :=
  if body.isDeadCodeFree then []
  else
    let place := (body.firstUnreachable?.map Command.position).getD position
    [{ position := place, message := "unreachable code" }]

def failureMessage (position : Position) : String :=
  "failed at " ++ Diagnostic.location (Diagnostic.format position "assertion")

def expressionTypes (checker : Checker) (expression : Expression) : List Ty :=
  typeOf checker expression ::
    match expression with
    | .binary _ _ left right => expressionTypes checker left ++ expressionTypes checker right
    | .comparison _ _ left right => expressionTypes checker left ++ expressionTypes checker right
    | .not _ operand => expressionTypes checker operand
    | .and _ left right => expressionTypes checker left ++ expressionTypes checker right
    | .or _ left right => expressionTypes checker left ++ expressionTypes checker right
    | _ => []

def commandTypes (checker : Checker) : Command → List Ty
  | .seq _ first second => commandTypes checker first ++ commandTypes checker second
  | .ifThen _ condition yes => expressionTypes checker condition ++ commandTypes checker yes
  | .ifElse _ condition yes no =>
    expressionTypes checker condition ++ commandTypes checker yes ++ commandTypes checker no
  | .loop _ condition body => expressionTypes checker condition ++ commandTypes checker body
  | .assign _ _ value => expressionTypes checker value
  | .assert _ condition => expressionTypes checker condition
  | _ => []

def failureMessages : Command → List String
  | .seq _ first second => failureMessages first ++ failureMessages second
  | .ifThen _ _ yes => failureMessages yes
  | .ifElse _ _ yes no => failureMessages yes ++ failureMessages no
  | .loop _ _ body => failureMessages body
  | .assert position _ => [failureMessage position]
  | _ => []

end Assay.Typing
