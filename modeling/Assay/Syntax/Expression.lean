import Assay.Graph.Instruction
import Assay.Source.Position

/-!
Expressions over integers, booleans and the fields of the receiver.
-/

namespace Assay.Syntax

open Assay.Graph (Arithmetic Cond)

/-- Operators are numbered; a number without a meaning behaves like `*`. -/
inductive BinaryOperator
  | add
  | sub
  | mul
  | unknown (code : Int)
deriving DecidableEq, Repr, Inhabited

namespace BinaryOperator

def ofCode (code : Int) : BinaryOperator :=
  if code = 0 then add else if code = 1 then sub else if code = 2 then mul else unknown code

def text : BinaryOperator → String
  | add => "+"
  | sub => "-"
  | mul => "*"
  | unknown code => "BinaryOperator(" ++ toString code ++ ")"

def ofText? (text : String) : Option BinaryOperator :=
  [add, sub, mul].find? fun operator => operator.text = text

def arithmetic : BinaryOperator → Arithmetic
  | add => .add
  | sub => .sub
  | _ => .mul

end BinaryOperator

/-- Operators are numbered; a number without a meaning behaves like `!=` but is no equality. -/
inductive ComparisonOperator
  | lessThan
  | lessOrEqual
  | greaterThan
  | greaterOrEqual
  | equal
  | notEqual
  | unknown (code : Int)
deriving DecidableEq, Repr, Inhabited

namespace ComparisonOperator

def ofCode (code : Int) : ComparisonOperator :=
  if code = 0 then lessThan
  else if code = 1 then lessOrEqual
  else if code = 2 then greaterThan
  else if code = 3 then greaterOrEqual
  else if code = 4 then equal
  else if code = 5 then notEqual
  else unknown code

def text : ComparisonOperator → String
  | lessThan => "<"
  | lessOrEqual => "<="
  | greaterThan => ">"
  | greaterOrEqual => ">="
  | equal => "=="
  | notEqual => "!="
  | unknown code => "ComparisonOperator(" ++ toString code ++ ")"

def ofText? (text : String) : Option ComparisonOperator :=
  [lessThan, lessOrEqual, greaterThan, greaterOrEqual, equal, notEqual].find? fun operator =>
    operator.text = text

def cond : ComparisonOperator → Cond
  | lessThan => .ifLt
  | lessOrEqual => .ifLe
  | greaterThan => .ifGt
  | greaterOrEqual => .ifGe
  | equal => .ifEq
  | _ => .ifNe

def isEquality : ComparisonOperator → Bool
  | equal | notEqual => true
  | _ => false

end ComparisonOperator

inductive Expression
  | int (position : Position) (value : Int64)
  | boolean (position : Position) (value : Bool)
  | field (position : Position) (name : String)
  | binary (position : Position) (operator : BinaryOperator) (left right : Expression)
  | comparison (position : Position) (operator : ComparisonOperator) (left right : Expression)
  | not (position : Position) (operand : Expression)
  | and (position : Position) (left right : Expression)
  | or (position : Position) (left right : Expression)
deriving DecidableEq, Repr, Inhabited

def Expression.position : Expression → Position
  | int position _ => position
  | boolean position _ => position
  | field position _ => position
  | binary position _ _ _ => position
  | comparison position _ _ _ => position
  | not position _ => position
  | and position _ _ => position
  | or position _ _ => position

end Assay.Syntax
