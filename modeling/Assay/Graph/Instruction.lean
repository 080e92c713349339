import Assay.Text.Quoted

/-!
The straight-line instructions stored in blocks, and the conditions on which blocks branch.

Kinds, operations and conditions are numbered. A number without a meaning is kept as it is, so that
it can be shown and rejected where a meaning is needed.
-/

namespace Assay.Graph

inductive ValueKind
  | void
  | int
  | float
  | reference
  | unknown (code : UInt8)
deriving DecidableEq, Repr, Inhabited

namespace ValueKind

def ofCode (code : UInt8) : ValueKind :=
  match code.toNat with
  | 0 => void
  | 1 => int
  | 2 => float
  | 3 => reference
  | _ => unknown code

def text : ValueKind → String
  | void => "void"
  | int => "int"
  | float => "float"
  | reference => "ref"
  | unknown code => "kind(" ++ toString code.toNat ++ ")"

end ValueKind

inductive Operation
  | const
  | newString
  | load
  | getField
  | putField
  | add
  | sub
  | mul
  | virtualCall
  | ret
  | unknown (code : UInt8)
deriving DecidableEq, Repr, Inhabited

namespace Operation

def ofCode (code : UInt8) : Operation :=
  match code.toNat with
  | 1 => const
  | 2 => newString
  | 3 => load
  | 4 => getField
  | 5 => putField
  | 6 => add
  | 7 => sub
  | 8 => mul
  | 9 => virtualCall
  | 10 => ret
  | _ => unknown code

def text : Operation → String
  | const => "const"
  | newString => "newstring"
  | load => "load"
  | getField => "getfield"
  | putField => "putfield"
  | add => "add"
  | sub => "sub"
  | mul => "mul"
  | virtualCall => "virtualcall"
  | ret => "return"
  | unknown code => "op(" ++ toString code.toNat ++ ")"

end Operation

inductive Arithmetic
  | add
  | sub
  | mul
deriving DecidableEq, Repr, Inhabited

namespace Arithmetic

def operation : Arithmetic → Operation
  | add => .add
  | sub => .sub
  | mul => .mul

def ofOperation? : Operation → Option Arithmetic
  | .add => some add
  | .sub => some sub
  | .mul => some mul
  | _ => none

def apply : Arithmetic → Int64 → Int64 → Int64
  | add, left, right => left + right
  | sub, left, right => left - right
  | mul, left, right => left * right

def rejection (operation : Operation) : String :=
  operation.text ++ " is not an arithmetic operation"

end Arithmetic

inductive Instruction
  | const (value : Int64)
  | newString (text : String)
  | load (slot : Int)
  | getField (owner field : String)
  | putField (owner field : String)
  | arithmetic (operator : Arithmetic)
  | virtualCall (owner method : String) (args : Int) (returns : ValueKind)
  | ret (kind : ValueKind)
  | unknown (code : UInt8)
deriving DecidableEq, Repr, Inhabited

structure Operands where
  value : Int64 := 0
  text : String := ""
  slot : Int := 0
  owner : String := ""
  name : String := ""
  args : Int := 0
  kind : ValueKind := .void
deriving DecidableEq, Repr, Inhabited

namespace Instruction

def make (operation : Operation) (operands : Operands) : Instruction :=
  match operation with
  | .const => const operands.value
  | .newString => newString operands.text
  | .load => load operands.slot
  | .getField => getField operands.owner operands.name
  | .putField => putField operands.owner operands.name
  | .add => arithmetic .add
  | .sub => arithmetic .sub
  | .mul => arithmetic .mul
  | .virtualCall => virtualCall operands.owner operands.name operands.args operands.kind
  | .ret => ret operands.kind
  | .unknown code => unknown code

def operation : Instruction → Operation
  | const _ => .const
  | newString _ => .newString
  | load _ => .load
  | getField _ _ => .getField
  | putField _ _ => .putField
  | arithmetic operator => operator.operation
  | virtualCall _ _ _ _ => .virtualCall
  | ret _ => .ret
  | unknown code => .unknown code

def isReturn : Instruction → Bool
  | ret _ => true
  | _ => false

def text (instruction : Instruction) : String :=
  let name := instruction.operation.text
  match instruction with
  | const value => name ++ " " ++ toString value.toInt
  | newString text => name ++ " " ++ Text.quote text
  | load slot => name ++ " " ++ toString slot
  | getField owner field => name ++ " " ++ owner ++ "." ++ field
  | putField owner field => name ++ " " ++ owner ++ "." ++ field
  | virtualCall owner method args returns =>
    name ++ " " ++ owner ++ "." ++ method ++ "/" ++ toString args ++ ":" ++ returns.text
  | ret kind => name ++ " " ++ kind.text
  | arithmetic _ => name
  | unknown _ => name

end Instruction

/-- The condition of a two-way branch. The first successor is taken when it holds. -/
inductive Cond
  | none
  | ifTrue
  | ifEq
  | ifNe
  | ifLt
  | ifLe
  | ifGt
  | ifGe
  | unknown (code : UInt8)
deriving DecidableEq, Repr, Inhabited

namespace Cond

def ofCode (code : UInt8) : Cond :=
  match code.toNat with
  | 0 => none
  | 1 => ifTrue
  | 2 => ifEq
  | 3 => ifNe
  | 4 => ifLt
  | 5 => ifLe
  | 6 => ifGt
  | 7 => ifGe
  | _ => unknown code

def text : Cond → String
  | none => "none"
  | ifTrue => "iftrue"
  | ifEq => "ifeq"
  | ifNe => "ifne"
  | ifLt => "iflt"
  | ifLe => "ifle"
  | ifGt => "ifgt"
  | ifGe => "ifge"
  | unknown code => "cond(" ++ toString code.toNat ++ ")"

def operands : Cond → Nat
  | none => 0
  | ifTrue => 1
  | _ => 2

end Cond

end Assay.Graph
