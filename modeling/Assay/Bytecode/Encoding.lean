import Assay.Bytecode.Opcode

/-!
Instructions as bytes: the opcode, then its operands with the high byte first.
-/

namespace Assay.Bytecode

inductive EncodingError
  | invalidOpcode (byte : UInt8)
  | operandCount (opcode : Opcode) (given : Nat)
  | operandRange (opcode : Opcode) (operand : Int) (width : Nat)
deriving DecidableEq, Repr

def EncodingError.message : EncodingError → String
  | invalidOpcode byte => "invalid opcode " ++ toString byte.toNat
  | operandCount opcode given =>
    opcode.name ++ " expects " ++ toString opcode.widths.length ++ " operand(s), got " ++
      toString given
  | operandRange opcode operand width =>
    "operand " ++ toString operand ++ " of " ++ opcode.name ++ " does not fit in " ++
      toString width ++ " byte(s)"

def bigEndian : Nat → Nat → List UInt8
  | 0, _ => []
  | width + 1, number => bigEndian width (number / 256) ++ [UInt8.ofNat number]

def encodeOperands (opcode : Opcode) : List Nat → List Int → Except EncodingError (List UInt8)
  | width :: widths, operand :: operands =>
    if operand < 0 || 1 <<< (8 * width) ≤ operand.toNat then
      .error (.operandRange opcode operand width)
    else
      match encodeOperands opcode widths operands with
      | .ok rest => .ok (bigEndian width operand.toNat ++ rest)
      | .error problem => .error problem
  | _, _ => .ok []

def encode (opcode : Opcode) (operands : List Int) : Except EncodingError (List UInt8) :=
  if operands.length ≠ opcode.widths.length then .error (.operandCount opcode operands.length)
  else
    match encodeOperands opcode opcode.widths operands with
    | .ok bytes => .ok (opcode.toByte :: bytes)
    | .error problem => .error problem

def encodeByte (byte : UInt8) (operands : List Int) : Except EncodingError (List UInt8) :=
  match Opcode.ofByte? byte with
  | some opcode => encode opcode operands
  | none => .error (.invalidOpcode byte)

def readNumber? (code : Array UInt8) : Nat → Nat → Nat → Option Nat
  | _, 0, number => some number
  | offset, width + 1, number =>
    match code[offset]? with
    | some byte => readNumber? code (offset + 1) width (number * 256 + byte.toNat)
    | none => none

def readOperands? (code : Array UInt8) : Nat → List Nat → Option (List Nat)
  | _, [] => some []
  | offset, width :: widths =>
    match readNumber? code offset width 0 with
    | none => none
    | some operand => (readOperands? code (offset + width) widths).map (operand :: ·)

inductive Decoded
  | instruction (opcode : Opcode) (operands : List Nat) (next : Nat)
  | invalid (byte : UInt8)
  | truncated
  | finished
deriving DecidableEq, Repr

def decodeAt (code : Array UInt8) (offset : Nat) : Decoded :=
  match code[offset]? with
  | none => .finished
  | some byte =>
    match Opcode.ofByte? byte with
    | none => .invalid byte
    | some opcode =>
      match readOperands? code (offset + 1) opcode.widths with
      | none => .truncated
      | some operands => .instruction opcode operands (offset + opcode.size)

end Assay.Bytecode
