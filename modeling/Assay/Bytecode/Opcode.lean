/-!
The instruction set of the machine: names, numbers and operand widths.
-/

namespace Assay.Bytecode

inductive Opcode
  | pushConstant
  | pop
  | dup
  | load
  | store
  | new
  | getField
  | setField
  | add
  | sub
  | mul
  | neg
  | intToFloat
  | floatDiv
  | nanoTime
  | print
  | invokeVirtual
  | invokeStatic
  | jump
  | jumpIfTrue
  | jumpIfEq
  | jumpIfNe
  | jumpIfLt
  | jumpIfLe
  | jumpIfGt
  | jumpIfGe
  | ret
  | retValue
deriving DecidableEq, Repr, Inhabited

namespace Opcode

def all : List Opcode :=
  [pushConstant, pop, dup, load, store, new, getField, setField, add, sub, mul, neg, intToFloat,
    floatDiv, nanoTime, print, invokeVirtual, invokeStatic, jump, jumpIfTrue, jumpIfEq, jumpIfNe,
    jumpIfLt, jumpIfLe, jumpIfGt, jumpIfGe, ret, retValue]

/-- Opcodes are numbered from one. -/
def toByte : Opcode → UInt8
  | pushConstant => 1
  | pop => 2
  | dup => 3
  | load => 4
  | store => 5
  | new => 6
  | getField => 7
  | setField => 8
  | add => 9
  | sub => 10
  | mul => 11
  | neg => 12
  | intToFloat => 13
  | floatDiv => 14
  | nanoTime => 15
  | print => 16
  | invokeVirtual => 17
  | invokeStatic => 18
  | jump => 19
  | jumpIfTrue => 20
  | jumpIfEq => 21
  | jumpIfNe => 22
  | jumpIfLt => 23
  | jumpIfLe => 24
  | jumpIfGt => 25
  | jumpIfGe => 26
  | ret => 27
  | retValue => 28

def ofByte? (byte : UInt8) : Option Opcode :=
  match byte.toNat with
  | 1 => some pushConstant
  | 2 => some pop
  | 3 => some dup
  | 4 => some load
  | 5 => some store
  | 6 => some new
  | 7 => some getField
  | 8 => some setField
  | 9 => some add
  | 10 => some sub
  | 11 => some mul
  | 12 => some neg
  | 13 => some intToFloat
  | 14 => some floatDiv
  | 15 => some nanoTime
  | 16 => some print
  | 17 => some invokeVirtual
  | 18 => some invokeStatic
  | 19 => some jump
  | 20 => some jumpIfTrue
  | 21 => some jumpIfEq
  | 22 => some jumpIfNe
  | 23 => some jumpIfLt
  | 24 => some jumpIfLe
  | 25 => some jumpIfGt
  | 26 => some jumpIfGe
  | 27 => some ret
  | 28 => some retValue
  | _ => none

def name : Opcode → String
  | pushConstant => "PUSH_CONST"
  | pop => "POP"
  | dup => "DUP"
  | load => "LOAD"
  | store => "STORE"
  | new => "NEW"
  | getField => "GET_FIELD"
  | setField => "SET_FIELD"
  | add => "ADD"
  | sub => "SUB"
  | mul => "MUL"
  | neg => "NEG"
  | intToFloat => "INT_TO_FLOAT"
  | floatDiv => "FLOAT_DIV"
  | nanoTime => "NANOTIME"
  | print => "PRINT"
  | invokeVirtual => "INVOKE_VIRTUAL"
  | invokeStatic => "INVOKE_STATIC"
  | jump => "JUMP"
  | jumpIfTrue => "JUMP_IF_TRUE"
  | jumpIfEq => "JUMP_IF_EQ"
  | jumpIfNe => "JUMP_IF_NE"
  | jumpIfLt => "JUMP_IF_LT"
  | jumpIfLe => "JUMP_IF_LE"
  | jumpIfGt => "JUMP_IF_GT"
  | jumpIfGe => "JUMP_IF_GE"
  | ret => "RETURN"
  | retValue => "RETURN_VALUE"

def ofName? (name : String) : Option Opcode := all.find? fun opcode => opcode.name = name

def byteName (byte : UInt8) : String :=
  match ofByte? byte with
  | some opcode => opcode.name
  | none => "Opcode(" ++ toString byte.toNat ++ ")"

def widths : Opcode → List Nat
  | load | store => [1]
  | pushConstant | new | getField | setField | invokeVirtual | invokeStatic | jump | jumpIfTrue
  | jumpIfEq | jumpIfNe | jumpIfLt | jumpIfLe | jumpIfGt | jumpIfGe => [2]
  | _ => []

def isJump : Opcode → Bool
  | jump | jumpIfTrue | jumpIfEq | jumpIfNe | jumpIfLt | jumpIfLe | jumpIfGt | jumpIfGe => true
  | _ => false

def usesConstant : Opcode → Bool
  | pushConstant | new | getField | setField | invokeStatic | invokeVirtual => true
  | _ => false

def size (opcode : Opcode) : Nat := opcode.widths.foldr (· + ·) 1

/-- The operand widths in the row of the table for a byte. The table starts with an unused row without
operands and has no rows behind the last opcode. -/
def byteWidths? (byte : UInt8) : Option (List Nat) :=
  if byte = 0 then some [] else (ofByte? byte).map widths

end Opcode

end Assay.Bytecode
