import Assay.Bytecode.Encoding
import Mathlib.Algebra.Ring.Int.Defs
import Mathlib.Algebra.Ring.Nat

/-!
Decoding reads back what encoding wrote, wherever it stands in the code.
-/

namespace Assay.Bytecode

def CodeAt (code : Array UInt8) (offset : Nat) (bytes : List UInt8) : Prop :=
  bytes <+: code.toList.drop offset

theorem CodeAt.append_iff {code : Array UInt8} {offset : Nat} {first second : List UInt8} :
    CodeAt code offset (first ++ second) ↔
      CodeAt code offset first ∧ CodeAt code (offset + first.length) second := by
  unfold CodeAt
  constructor
  · rintro ⟨rest, found⟩
    refine ⟨⟨second ++ rest, by rw [← found, List.append_assoc]⟩, rest, ?_⟩
    rw [← List.drop_drop, ← found, List.append_assoc, List.drop_left]
  · rintro ⟨⟨rest, found⟩, tail, later⟩
    refine ⟨tail, ?_⟩
    rw [← List.drop_drop, ← found, List.drop_left] at later
    rw [← found, ← later, List.append_assoc]

theorem CodeAt.left {code : Array UInt8} {offset : Nat} {first second : List UInt8}
    (found : CodeAt code offset (first ++ second)) : CodeAt code offset first :=
  (CodeAt.append_iff.mp found).1

theorem CodeAt.right {code : Array UInt8} {offset : Nat} {first second : List UInt8}
    (found : CodeAt code offset (first ++ second)) :
    CodeAt code (offset + first.length) second :=
  (CodeAt.append_iff.mp found).2

theorem CodeAt.head {code : Array UInt8} {offset : Nat} {byte : UInt8} {rest : List UInt8}
    (found : CodeAt code offset (byte :: rest)) : code[offset]? = some byte := by
  obtain ⟨tail, found⟩ := found
  have first : (code.toList.drop offset)[0]? = some byte := by rw [← found]; rfl
  simpa using first

theorem CodeAt.tail {code : Array UInt8} {offset : Nat} {byte : UInt8} {rest : List UInt8}
    (found : CodeAt code offset (byte :: rest)) : CodeAt code (offset + 1) rest := by
  have split : CodeAt code offset ([byte] ++ rest) := found
  exact split.right

def bigEndianValue (start : Nat) (bytes : List UInt8) : Nat :=
  bytes.foldl (fun number byte => number * 256 + byte.toNat) start

theorem readNumber?_codeAt {code : Array UInt8} {offset : Nat} {bytes : List UInt8}
    (found : CodeAt code offset bytes) (start : Nat) :
    readNumber? code offset bytes.length start = some (bigEndianValue start bytes) := by
  induction bytes generalizing offset start with
  | nil => rfl
  | cons byte rest ih =>
      simp only [List.length_cons, readNumber?, found.head]
      exact ih found.tail _

@[simp] theorem bigEndian_length (width number : Nat) : (bigEndian width number).length = width := by
  induction width generalizing number with
  | zero => rfl
  | succ width ih => simp [bigEndian, ih]

theorem bigEndianValue_bigEndian (width number start : Nat) (fits : number < 256 ^ width) :
    bigEndianValue start (bigEndian width number) = start * 256 ^ width + number := by
  induction width generalizing number start with
  | zero =>
      have zero : number = 0 := by simpa using fits
      simp [bigEndian, bigEndianValue, zero]
  | succ width ih =>
      have smaller : number / 256 < 256 ^ width := by
        rw [Nat.div_lt_iff_lt_mul (by omega)]
        simpa [Nat.pow_succ] using fits
      have rest := ih (number / 256) start smaller
      have lastByte : (UInt8.ofNat number).toNat = number % 256 := by simp
      simp only [bigEndian, bigEndianValue, List.foldl_append, List.foldl_cons, List.foldl_nil]
      rw [bigEndianValue] at rest
      rw [rest, lastByte, Nat.add_mul, Nat.pow_succ, ← Nat.mul_assoc]
      omega

theorem toNat_lt_of_fits {operand : Int} {width : Nat}
    (inRange : ¬(operand < 0 || 1 <<< (8 * width) ≤ operand.toNat) = true) :
    operand.toNat < 256 ^ width := by
  simp only [Bool.or_eq_true, decide_eq_true_eq, not_or, Int.not_lt, Nat.not_le] at inRange
  have power : 256 ^ width = 1 <<< (8 * width) := by rw [Nat.one_shiftLeft, Nat.pow_mul]
  omega

theorem encodeOperands_fits {opcode : Opcode} {widths : List Nat} {operands : List Int}
    {bytes : List UInt8} (encoded : encodeOperands opcode widths operands = .ok bytes)
    (sameLength : operands.length = widths.length) :
    bytes.length + 1 = widths.foldr (· + ·) 1 ∧
      ∀ (code : Array UInt8) (offset : Nat), CodeAt code offset bytes →
        readOperands? code offset widths = some (operands.map Int.toNat) := by
  induction widths generalizing operands bytes with
  | nil =>
      obtain rfl := List.length_eq_zero_iff.mp sameLength
      simp only [encodeOperands, Except.ok.injEq] at encoded
      subst encoded
      exact ⟨rfl, fun _ _ _ => rfl⟩
  | cons width widths ih =>
      cases operands with
      | nil => simp at sameLength
      | cons operand operands =>
          simp only [encodeOperands] at encoded
          split at encoded
          · simp at encoded
          · rename_i inRange
            split at encoded
            · rename_i rest restEncoded
              simp only [Except.ok.injEq] at encoded
              subst encoded
              obtain ⟨restLength, restRead⟩ := ih restEncoded (by simpa using sameLength)
              refine ⟨by simp [← restLength, Nat.add_assoc], ?_⟩
              intro code offset found
              have fits := toNat_lt_of_fits inRange
              have number := readNumber?_codeAt found.left 0
              rw [bigEndian_length, bigEndianValue_bigEndian _ _ _ fits] at number
              have later := restRead code _ found.right
              rw [bigEndian_length] at later
              simp [readOperands?, number, later]
            · simp at encoded

@[simp] theorem Opcode.ofByte?_toByte (opcode : Opcode) : Opcode.ofByte? opcode.toByte = some opcode := by
  cases opcode <;> rfl

theorem encode_length {opcode : Opcode} {operands : List Int} {bytes : List UInt8}
    (encoded : encode opcode operands = .ok bytes) : bytes.length = opcode.size := by
  simp only [encode] at encoded
  split at encoded
  · simp at encoded
  · rename_i sameLength
    split at encoded
    · rename_i rest restEncoded
      simp only [Except.ok.injEq] at encoded
      subst encoded
      have restLength := (encodeOperands_fits restEncoded (by simpa using sameLength)).1
      simp only [List.length_cons, restLength, Opcode.size]
    · simp at encoded

/-- An encoded instruction is decoded wherever it stands. -/
theorem decodeAt_encode {opcode : Opcode} {operands : List Int} {bytes : List UInt8}
    {code : Array UInt8} {offset : Nat} (encoded : encode opcode operands = .ok bytes)
    (found : CodeAt code offset bytes) :
    decodeAt code offset =
      .instruction opcode (operands.map Int.toNat) (offset + bytes.length) := by
  have length := encode_length encoded
  simp only [encode] at encoded
  split at encoded
  · simp at encoded
  · rename_i sameLength
    split at encoded
    · rename_i rest restEncoded
      simp only [Except.ok.injEq] at encoded
      subst encoded
      have read := (encodeOperands_fits restEncoded (by simpa using sameLength)).2 code _ found.tail
      simp only [decodeAt, found.head, Opcode.ofByte?_toByte, read, length]
    · simp at encoded

theorem encode_operand_fits {opcode : Opcode} {operand : Int} {bytes : List UInt8}
    (encoded : encode opcode [operand] = .ok bytes) :
    ∃ width, opcode.widths = [width] ∧ 0 ≤ operand ∧ operand < 2 ^ (8 * width) := by
  simp only [encode] at encoded
  split at encoded
  · simp at encoded
  · rename_i sameLength
    obtain ⟨width, single⟩ : ∃ width, opcode.widths = [width] := by
      apply List.length_eq_one_iff.mp
      simpa using Eq.symm (Decidable.not_not.mp sameLength)
    refine ⟨width, single, ?_⟩
    rw [single] at encoded
    by_cases inRange : (operand < 0 || 1 <<< (8 * width) ≤ operand.toNat) = true
    · simp only [encodeOperands, inRange, if_true] at encoded
      exact absurd encoded (by simp)
    · simp only [Bool.or_eq_true, decide_eq_true_eq, not_or, Int.not_lt, Nat.not_le,
        Nat.one_shiftLeft] at inRange
      have cast : ((2 ^ (8 * width) : Nat) : Int) = 2 ^ (8 * width) := by simp
      exact ⟨inRange.1, by omega⟩

end Assay.Bytecode
