import Assay.Lowering.Expression

/-!
Lowering of commands and of the bodies of tests and fixtures.
-/

namespace Assay.Lowering

open Assay.Graph Syntax Typing

def outputCall : Instruction :=
  .virtualCall outputMethod.owner outputMethod.name outputMethod.params.length
    outputMethod.returns.kind

def verdict (message : String) (status : Int64) : List Instruction :=
  [.newString message, outputCall, .const status, .ret .int]

def passed : List Instruction := verdict "passed" 0

/-- `exit` is where returns go, `next` what runs after the command. -/
def lowerCommand (resolution : Resolution) (exit : BlockIndex) : Command → BlockIndex → Lower BlockIndex
  | .skip _, next => pure next
  | .seq _ first second, next => do
    let rest ← lowerCommand resolution exit second next
    lowerCommand resolution exit first rest
  | .ifThen _ condition yes, next => do
    let whenTrue ← lowerCommand resolution exit yes next
    lowerExpression resolution condition (.test whenTrue next)
  | .ifElse _ condition yes no, next => do
    let whenTrue ← lowerCommand resolution exit yes next
    let whenFalse ← lowerCommand resolution exit no next
    lowerExpression resolution condition (.test whenTrue whenFalse)
  | .loop _ condition body, next => do
    let pivot ← newBlock []
    let round ← lowerCommand resolution exit body pivot
    let test ← lowerExpression resolution condition (.test round next)
    link pivot test
    pure pivot
  | .ret _, _ => pure exit
  | .assign position field value, next => do
    match resolution.owner? field with
    | none => throw (.unchecked "FieldAssign" position)
    | some owner =>
      let store ← prepend [.putField owner field] next
      let compute ← lowerExpression resolution value (.value store)
      prepend [loadReceiver] compute
  | .assert position condition, next => do
    if resolution.checked then
      let failed ← newBlock (verdict (failureMessage position) 1)
      lowerExpression resolution condition (.test next failed)
    else throw (.unchecked "Assert" position)

/-- The code that every return of a member goes to, and that follows its body. -/
def exitCode : Role → List Instruction
  | .test => passed
  | .fixture => [.ret .void]

def lowerBody (role : Role) (resolution : Resolution) (body : Command) : Lower BlockIndex := do
  let exit ← newBlock (exitCode role)
  lowerCommand resolution exit body exit

end Assay.Lowering
