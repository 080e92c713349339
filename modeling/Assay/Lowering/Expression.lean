import Assay.Lowering.Monad
import Assay.Typing.Member

/-!
Lowering of expressions. What happens to the value is the destination: it is left on the stack for the
block that follows, or it decides between two blocks and is gone.
-/

namespace Assay.Lowering

open Assay.Graph Syntax Typing

inductive Destination
  | value (next : BlockIndex)
  | test (yes no : BlockIndex)
deriving DecidableEq, Repr

def Destination.consumer : Destination → Lower BlockIndex
  | value next => pure next
  | test yes no => branch .ifTrue yes no

/-- The blocks to go to when the value is known by the branch taken: to leave a value on the stack, it
is pushed on either branch. -/
def Destination.branches : Destination → Lower (BlockIndex × BlockIndex)
  | value next => do
    let yes ← prepend [.const 1] next
    let no ← prepend [.const 0] next
    pure (yes, no)
  | test yes no => pure (yes, no)

/-- The receiver is the first local variable of every routine. -/
def loadReceiver : Instruction := .load 0

def lowerExpression (resolution : Resolution) : Expression → Destination → Lower BlockIndex
  | .int _ value, destination => do
    prepend [.const value] (← destination.consumer)
  | .boolean _ value, .value next => prepend [.const (if value then 1 else 0)] next
  | .boolean _ value, .test yes no => pure (if value then yes else no)
  | .field position name, destination => do
    let next ← destination.consumer
    match resolution.owner? name with
    | some owner => prepend [loadReceiver, .getField owner name] next
    | none => throw (.unchecked "FieldAccess" position)
  | .binary _ operator left right, destination => do
    let operation ← prepend [.arithmetic operator.arithmetic] (← destination.consumer)
    let second ← lowerExpression resolution right (.value operation)
    lowerExpression resolution left (.value second)
  | .comparison _ operator left right, destination => do
    let (yes, no) ← destination.branches
    let decision ← branch operator.cond yes no
    let second ← lowerExpression resolution right (.value decision)
    lowerExpression resolution left (.value second)
  | .not _ operand, destination => do
    let (yes, no) ← destination.branches
    lowerExpression resolution operand (.test no yes)
  | .and _ left right, destination => do
    let (yes, no) ← destination.branches
    let second ← lowerExpression resolution right (.test yes no)
    lowerExpression resolution left (.test second no)
  | .or _ left right, destination => do
    let (yes, no) ← destination.branches
    let second ← lowerExpression resolution right (.test yes no)
    lowerExpression resolution left (.test yes second)

end Assay.Lowering
